/-
Heapusage.Client.Quarantine — the policy of the quarantine over whole runs.

§1 Turns  — the eviction loop as turns of its body: it ends, and in none of its
            states has the byte counter wrapped (`evictLoop_turns`,
            `EvictTurn.exact_of_turns`).
§2 Pushes — what freeing a fenced block does to the queue, the counter and the
            flag, in terms of `Backlogs.trim` (`Quarantine.push`), and that
            every call does that or nothing (`huCall_quarantine`).
§3 Runs   — the queue against all fenced blocks freed so far (`QueueInv.next`).
§4 The policy (`QueueInv.policy`).
-/
import Heapusage.Client.Conservation
import Heapusage.Client.Containers
import Heapusage.Lib.Backlog

namespace Heapusage

open Arenas Backlogs Relation Runs Tables Words

/-! ## §1 Turns -/

/-- One turn of the eviction loop. -/
inductive EvictTurn (c : MallocConfig) (lc : LogConfig) (ans : SysAns) : HuState → HuState → Prop
  | turn {s : HuState} {info : HuAllocInfo} {rest : List HuAllocInfo}
      (hqueue : s.mal.huQuarantineAllocs = info :: rest)
      (hover : s.mal.huQuarantineSize > c.huQuarantineMaxSize) :
      EvictTurn c lc ans s (evictFront c lc ans info s)

/-- The counter is the number of bytes in the queue, which fits in a word. -/
structure MallocState.Exact (m : MallocState) : Prop where
  size : m.huQuarantineSize = total HuAllocInfo.sysSize m.huQuarantineAllocs
  word : total HuAllocInfo.sysSize m.huQuarantineAllocs < 2 ^ 64

section Turns

variable {c : MallocConfig} {lc : LogConfig} {ans : SysAns} {s t : HuState}

/-- The subtraction of a turn does not wrap. -/
theorem evictFront_exact {info : HuAllocInfo} {rest : List HuAllocInfo}
    (hqueue : s.mal.huQuarantineAllocs = info :: rest) (hs : s.mal.Exact) :
    (evictFront c lc ans info s).mal.Exact := by
  obtain ⟨hsize, hword⟩ := hs
  have hcounter : (evictFront c lc ans info s).mal.huQuarantineSize =
      sub 64 s.mal.huQuarantineSize info.sysSize := rfl
  rw [hqueue, total_cons] at hsize hword
  constructor
  · rw [hcounter, evictFront_queue, hqueue, List.tail_cons, hsize, sub_eq (by omega) hword]
    omega
  · rw [evictFront_queue, hqueue, List.tail_cons]
    omega

theorem EvictTurn.exact_of_turns (hs : s.mal.Exact) (h : ReflTransGen (EvictTurn c lc ans) s t) :
    t.mal.Exact := by
  induction h with
  | refl => exact hs
  | tail _ hturn ih =>
    cases hturn with
    | turn hqueue hover => exact evictFront_exact hqueue ih

/-- **The loop takes turns until none is left.** -/
theorem evictLoop_turns (q : List HuAllocInfo) : ∀ s : HuState, s.mal.huQuarantineAllocs = q →
    ReflTransGen (EvictTurn c lc ans) s (evictLoop c lc ans q s) ∧
      ∀ t, ¬ EvictTurn c lc ans (evictLoop c lc ans q s) t := by
  induction q with
  | nil =>
    intro s hq
    refine ⟨.refl, fun t hturn => ?_⟩
    cases hturn with
    | turn hqueue hover =>
      rw [evictLoop, hq] at hqueue
      cases hqueue
  | cons info rest ih =>
    intro s hq
    unfold evictLoop
    by_cases hover : s.mal.huQuarantineSize > c.huQuarantineMaxSize
    · rw [if_pos hover]
      obtain ⟨hturns, hend⟩ := ih (evictFront c lc ans info s) (by rw [evictFront_queue, hq]; rfl)
      exact ⟨.head (.turn hq hover) hturns, hend⟩
    · rw [if_neg hover]
      refine ⟨.refl, fun t hturn => ?_⟩
      cases hturn with
      | turn _ hover' => exact hover hover'

end Turns

/-! ## §2 Pushes -/

/-- The three variables of the quarantine. -/
structure Quarantine where
  allocs : List HuAllocInfo
  size : Nat
  evicted : Bool

def MallocState.quarantine (m : MallocState) : Quarantine :=
  ⟨m.huQuarantineAllocs, m.huQuarantineSize, m.huQuarantineEvicted⟩

/-- A block joins, and blocks leave in the order they came until the rest is
within the limit. -/
def Quarantine.push (limit : Nat) (b : HuAllocInfo) (Q : Quarantine) : Quarantine where
  allocs := trim HuAllocInfo.sysSize limit (Q.allocs ++ [b])
  size := total HuAllocInfo.sysSize (trim HuAllocInfo.sysSize limit (Q.allocs ++ [b]))
  evicted := Q.evicted || !(overflow HuAllocInfo.sysSize limit (Q.allocs ++ [b])).isEmpty

/-- The state the eviction loop of `hu_free` starts in. -/
def enqueued (c : MallocConfig) (ans : SysAns) (info : HuAllocInfo) (s : HuState) : HuState :=
  let s := huMprotect c ans info.sysPtr info.sysSize .none s
  { s with mal := { s.mal with
      huQuarantineAllocs := s.mal.huQuarantineAllocs ++ [info]
      huQuarantineSize := add 64 s.mal.huQuarantineSize info.sysSize } }

/-- The state of `hu_free` when the block has left `hu_active_allocs`. -/
def HuState.deactivated (p : Nat) (s : HuState) : HuState :=
  { s with mal := { s.mal with huActiveAllocs := s.mal.huActiveAllocs.erase p } }

/-- `hu_free` of an active block. -/
theorem huFree_of_active (c : MallocConfig) (lc : LogConfig) (ans : SysAns) {p : Nat}
    {s : HuState} {b : HuAllocInfo} (hinit : s.mal.huMallocInited = true) (hp : p ≠ 0)
    (haddr : p ∈ s.mal.huUserAddrs) (hb : s.mal.huActiveAllocs.lookup p = some b) :
    huFree c lc ans p s =
      if c.huUseafterfree then quarantine c lc ans b (s.deactivated p)
      else (huMprotect c ans b.sysPtr b.sysSize .readWrite (s.deactivated p)).libcFree
        b.sysPtr := by
  rcases huFree_cases c lc ans p s hinit with ⟨h0, -⟩ | ⟨-, hno, -⟩ | ⟨-, -, hno, -⟩ |
    ⟨-, -, d, hd, heq⟩
  · exact absurd h0 hp
  · exact absurd haddr hno
  · rw [hb] at hno
    cases hno
  · rw [hb] at hd
    cases hd
    exact heq

theorem quarantine_eq (c : MallocConfig) (lc : LogConfig) (ans : SysAns) (info : HuAllocInfo)
    (s : HuState) : quarantine c lc ans info s =
      evictLoop c lc ans (s.mal.huQuarantineAllocs ++ [info]) (enqueued c ans info s) := rfl

theorem huMalloc_quarantine (c : MallocConfig) (ans : SysAns) (n : Nat) (s : HuState) :
    (huMalloc c ans n s).1.mal.quarantine = s.mal.quarantine := by
  rcases huMalloc_cases c ans n s with ⟨-, h⟩ | ⟨-, h | ⟨-, hr, h⟩⟩
  · rw [h]
    rfl
  · rw [h]
  · rw [h]
    unfold fencedAt
    split <;> rfl

theorem MallocState.Exact.congr {m m' : MallocState} (hm : m.Exact)
    (h : m'.quarantine = m.quarantine) : m'.Exact := by
  have hallocs : m'.huQuarantineAllocs = m.huQuarantineAllocs := congrArg Quarantine.allocs h
  have hsize : m'.huQuarantineSize = m.huQuarantineSize := congrArg Quarantine.size h
  constructor
  · rw [hsize, hallocs, hm.size]
  · rw [hallocs]
    exact hm.word

namespace HeapInv

variable {Λ : Layout} {s : HuState} {L : ClientHeap}

/-- Different blocks have different regions. -/
theorem regions_nodup (hi : HeapInv Λ s L) {q : List HuAllocInfo}
    (hq : List.Sublist q s.mal.owned) : (q.map HuAllocInfo.region).Nodup := by
  have hbases := hi.owned_nodup.sublist (hq.map HuAllocInfo.sysPtr)
  have hmap : q.map HuAllocInfo.sysPtr = (q.map HuAllocInfo.region).map Block.base := by
    simp [HuAllocInfo.region]
  rw [hmap] at hbases
  exact hbases.of_map _

/-- Their regions do not add up to `2 ^ 64` bytes. -/
theorem total_lt (hi : HeapInv Λ s L) {q : List HuAllocInfo} (hq : List.Sublist q s.mal.owned) :
    total HuAllocInfo.sysSize q < 2 ^ 64 := by
  have hnd := hi.regions_nodup hq
  have hlive : ∀ r ∈ q.map HuAllocInfo.region, r ∈ s.sys.arena.blocks := by
    intro r hr
    obtain ⟨b, hb, rfl⟩ := List.mem_map.mp hr
    exact hi.owned_live b (hq.subset hb)
  have hle := s.sys.arena.sum_size_le hnd hlive
  have hsum : ((q.map HuAllocInfo.region).map Block.size).sum = total HuAllocInfo.sysSize q := by
    simp [total, HuAllocInfo.region, Function.comp_def]
  omega

/-- A turn passes the front of the queue to `free`. -/
theorem evictFront_returned (hi : HeapInv Λ s L) (c : MallocConfig) (lc : LogConfig)
    (ans : SysAns) {info : HuAllocInfo} (hinfo : info ∈ s.mal.owned) :
    (evictFront c lc ans info s).sys.returned = info.region :: s.sys.returned := by
  have hne := hi.sysPtr_ne_zero hinfo
  have hfind : s.sys.arena.find info.sysPtr = some info.region :=
    s.sys.arena.find_eq_some (hi.owned_live info hinfo)
  rw [evictFront_sys, SysHeap.libcFree_of_ne _ hne]
  simp only [SysHeap.returned, huMprotect_arena, huMprotect_calls, hfind, List.filterMap_cons]
  rfl

/-- **The eviction loop trims the queue** and passes what leaves it to `free`,
oldest first. -/
theorem evictLoop_trims (c : MallocConfig) (lc : LogConfig) (ans : SysAns)
    (q : List HuAllocInfo) : ∀ s : HuState, HeapInv Λ s L → s.mal.huQuarantineAllocs = q →
    s.mal.Exact →
    (evictLoop c lc ans q s).mal.quarantine =
      { allocs := trim HuAllocInfo.sysSize c.huQuarantineMaxSize q
        size := total HuAllocInfo.sysSize (trim HuAllocInfo.sysSize c.huQuarantineMaxSize q)
        evicted := s.mal.huQuarantineEvicted ||
          !(overflow HuAllocInfo.sysSize c.huQuarantineMaxSize q).isEmpty } ∧
    (evictLoop c lc ans q s).sys.returned =
      ((overflow HuAllocInfo.sysSize c.huQuarantineMaxSize q).map HuAllocInfo.region).reverse ++
        s.sys.returned := by
  induction q with
  | nil =>
    intro s _ hq hs
    have hsize := hs.size
    rw [hq] at hsize
    simp [evictLoop, trim, overflow, MallocState.quarantine, hq, hsize]
  | cons info rest ih =>
    intro s hi hq hs
    have hsize := hs.size
    have hinfo : info ∈ s.mal.owned := MallocState.queue_owned (by simp [hq])
    rw [hq] at hsize
    unfold evictLoop trim overflow
    rw [hsize]
    by_cases hover : total HuAllocInfo.sysSize (info :: rest) > c.huQuarantineMaxSize
    · have hkeeps := hi.evictFront_keeps c lc ans hq
      have hexact : (evictFront c lc ans info s).mal.Exact := evictFront_exact hq hs
      obtain ⟨hfields, hreturned⟩ := ih _ hkeeps (by rw [evictFront_queue, hq]; rfl) hexact
      have hflag : (evictFront c lc ans info s).mal.huQuarantineEvicted = true := rfl
      simp only [if_pos hover]
      rw [hfields, hreturned, hflag, hi.evictFront_returned c lc ans hinfo]
      simp
    · simp only [if_neg hover]
      simp [MallocState.quarantine, hq, hsize]

/-- The block has joined the queue. -/
theorem enqueued_keeps (hi : HeapInv Λ s L) (c : MallocConfig) (ans : SysAns) {p : Nat}
    {b : HuAllocInfo} (hb : s.mal.huActiveAllocs.lookup p = some b) :
    HeapInv Λ (enqueued c ans b (s.deactivated p)) (L.drop p) :=
  hi.retire_to_queue hb rfl rfl rfl (by simp [enqueued, HuState.deactivated])

/-- What giving up the block `b` does, in an invariant state. -/
theorem quarantine_pushes (hi : HeapInv Λ s L) (hs : s.mal.Exact) (c : MallocConfig)
    (lc : LogConfig) (ans : SysAns) {p : Nat} {b : HuAllocInfo}
    (hb : s.mal.huActiveAllocs.lookup p = some b) :
    (enqueued c ans b (s.deactivated p)).mal.Exact ∧
    (quarantine c lc ans b (s.deactivated p)).mal.quarantine =
      s.mal.quarantine.push c.huQuarantineMaxSize b ∧
    (quarantine c lc ans b (s.deactivated p)).sys.returned =
      ((overflow HuAllocInfo.sysSize c.huQuarantineMaxSize
        (s.mal.huQuarantineAllocs ++ [b])).map HuAllocInfo.region).reverse ++
        s.sys.returned := by
  have henqueued := hi.enqueued_keeps c ans hb
  have hqueue : (enqueued c ans b (s.deactivated p)).mal.huQuarantineAllocs =
      s.mal.huQuarantineAllocs ++ [b] := rfl
  have hcounter : (enqueued c ans b (s.deactivated p)).mal.huQuarantineSize =
      add 64 s.mal.huQuarantineSize b.sysSize := rfl
  have hflag : (enqueued c ans b (s.deactivated p)).mal.huQuarantineEvicted =
      s.mal.huQuarantineEvicted := rfl
  have hreturned : (enqueued c ans b (s.deactivated p)).sys.returned = s.sys.returned := by
    simp [enqueued, HuState.deactivated, SysHeap.returned]
  have hword : total HuAllocInfo.sysSize (s.mal.huQuarantineAllocs ++ [b]) < 2 ^ 64 := by
    rw [← hqueue]
    exact henqueued.total_lt (List.sublist_append_right _ _)
  have hexact : (enqueued c ans b (s.deactivated p)).mal.Exact := by
    have hsum : total HuAllocInfo.sysSize (s.mal.huQuarantineAllocs ++ [b]) =
        total HuAllocInfo.sysSize s.mal.huQuarantineAllocs + b.sysSize := by simp
    constructor
    · rw [hcounter, hqueue, hs.size, hsum]
      exact add_eq (hsum ▸ hword)
    · rw [hqueue]
      exact hword
  obtain ⟨hfields, hcalls⟩ := henqueued.evictLoop_trims c lc ans _ _ hqueue hexact
  rw [quarantine_eq]
  refine ⟨hexact, ?_, ?_⟩
  · rw [show (s.deactivated p).mal.huQuarantineAllocs = s.mal.huQuarantineAllocs from rfl, hfields,
      hflag]
    rfl
  · rw [show (s.deactivated p).mal.huQuarantineAllocs = s.mal.huQuarantineAllocs from rfl, hcalls,
      hreturned]

/-- `hu_free` pushes the block it frees, if it frees one. -/
theorem huFree_quarantine (hi : HeapInv Λ s L) (hs : s.mal.Exact) (c : MallocConfig)
    (lc : LogConfig) (ans : SysAns) (p : Nat) (huaf : c.huUseafterfree = true)
    (hinit : s.mal.huMallocInited = true) :
    (huFree c lc ans p s).mal.quarantine =
      match s.mal.huActiveAllocs.lookup p with
      | some b => s.mal.quarantine.push c.huQuarantineMaxSize b
      | none => s.mal.quarantine := by
  rcases huFree_cases c lc ans p s hinit with ⟨rfl, h⟩ | ⟨-, haddr, h⟩ | ⟨-, -, hb, h⟩ |
    ⟨-, -, b, hb, h⟩
  · rw [h, AList.lookup_eq_none.mpr hi.null_not_active]
  · rw [h, AList.lookup_eq_none.mpr (hi.not_active_of_addr haddr)]
    rfl
  · rw [h, hb]
  · rw [h, hb]
    simp only [huaf, if_true]
    exact (hi.quarantine_pushes hs c lc ans hb).2.1

/-- **Every call pushes the block it gives up**, and otherwise leaves the
quarantine alone. -/
theorem huCall_quarantine (hi : HeapInv Λ s L) (hs : s.mal.Exact) (c : MallocConfig)
    (lc : LogConfig) (ans : SysAns) (call : Call) (huaf : c.huUseafterfree = true)
    (hinit : s.mal.huMallocInited = true) (hcall : call.Handled s L)
    (htakes : 0 < call.requested → c.huMinsize ≤ call.requested → Λ.Takes c call.requested) :
    (huCall c lc ans call s).1.mal.quarantine =
      match s.mal.huActiveAllocs.lookup call.argument with
      | some b => s.mal.quarantine.push c.huQuarantineMaxSize b
      | none => s.mal.quarantine := by
  have hnull : s.mal.huActiveAllocs.lookup 0 = none := AList.lookup_eq_none.mpr hi.null_not_active
  cases call with
  | malloc size =>
    simp only [huCall, Call.argument, hnull]
    exact huMalloc_quarantine c ans size s
  | free ptr => exact hi.huFree_quarantine hs c lc ans ptr huaf hinit
  | calloc nmemb size =>
    simp only [huCall, Call.argument, hnull]
    rcases huCalloc_cases c ans nmemb size s hinit with ⟨-, h⟩ | ⟨-, h⟩ | ⟨-, -, h⟩
    · rw [h]
      rfl
    · rw [h]
    · rw [h, callocCleared_mal, huMalloc_quarantine]
  | realloc ptr size =>
    simp only [huCall, Call.argument]
    rcases huRealloc_cases c lc ans ptr size s hinit with ⟨hp, h⟩ | ⟨-, -, h⟩ |
      ⟨hne, -, b, hb, h⟩ | ⟨-, -, hb, h⟩
    · rw [h, hp, hnull]
      exact huMalloc_quarantine c ans size s
    · rw [h]
      exact hi.huFree_quarantine hs c lc ans ptr huaf hinit
    · -- the new block is not the old one, which is still active when it is freed
      have hmem : ptr ∈ L.ptrs := hcall.resolve_left hne
      have hcopied := hi.reallocCopied_keeps c ans b size htakes
      have hqp := hi.huMalloc_ne c ans size htakes hmem
      have hsame : (reallocCopied c ans b size s).mal.quarantine = s.mal.quarantine := by
        rw [reallocCopied_mal, huMalloc_quarantine]
      have hexact := hs.congr hsame
      have hfree := hcopied.huFree_quarantine hexact c lc ans ptr huaf (by simpa using hinit)
      rw [h, hfree, reallocCopied_mal, huMalloc_lookup_ne c ans size s hqp, huMalloc_quarantine]
    · rw [h, hb]
      rfl

end HeapInv

/-! ## §3 Runs -/

/-- A session with all fenced blocks given up so far, oldest first. -/
structure QueueTrace where
  session : Session
  given : List HuAllocInfo

/-- The fenced block a call gives up. -/
def Session.gives (σ : Session) (call : Call) : List HuAllocInfo :=
  (σ.tool.mal.huActiveAllocs.lookup call.argument).toList

def QueueTrace.init (l : LogState) : QueueTrace := ⟨.allocInit l, []⟩

def QueueTrace.next (c : MallocConfig) (lc : LogConfig) (τ : QueueTrace) (i : AllocInput) :
    QueueTrace :=
  ⟨τ.session.allocNext c lc i, τ.given ++ τ.session.gives i.call⟩

/-- The calls of the runs: null or live pointers, and for `hu_free` any address
that was ever a fenced block; fenced sizes do not wrap. `mprotect` may fail. -/
structure QueueTrace.Handles (c : MallocConfig) (τ : QueueTrace) (i : AllocInput) : Prop where
  handled : i.call.Handled τ.session.tool τ.session.client
  fits : 0 < i.call.requested → c.huMinsize ≤ i.call.requested → c.Fits i.call.requested

/-- The blocks given up are those that left and those in the queue, in order;
the flag says whether any has left. -/
def Quarantine.Keeps (given : List HuAllocInfo) (Q : Quarantine) : Prop :=
  ∃ left, given = left ++ Q.allocs ∧ (Q.evicted = true ↔ left ≠ [])

/-- Pushing keeps the account of what has left. -/
theorem Quarantine.Keeps.push {limit : Nat} {b : HuAllocInfo} {Q : Quarantine}
    {given : List HuAllocInfo} (h : Q.Keeps given) : (Q.push limit b).Keeps (given ++ [b]) := by
  obtain ⟨left, hgiven, hleft⟩ := h
  refine ⟨left ++ overflow HuAllocInfo.sysSize limit (Q.allocs ++ [b]), ?_, ?_⟩
  · rw [hgiven, List.append_assoc, List.append_assoc, Quarantine.push, overflow_append_trim]
  · simp only [Quarantine.push, Bool.or_eq_true, hleft, Bool.not_eq_true',
      List.isEmpty_eq_false_iff]
    rw [ne_eq, ne_eq, ne_eq, List.append_eq_nil_iff]
    tauto

/-- What holds of the quarantine between calls. -/
structure QueueInv (c : MallocConfig) (τ : QueueTrace) : Prop where
  inited : τ.session.tool.mal.huMallocInited = true
  heap : HeapInv (.shaped c) τ.session.tool τ.session.client
  exact : τ.session.tool.mal.Exact
  within : τ.session.tool.mal.quarantine.size ≤ c.huQuarantineMaxSize
  keeps : τ.session.tool.mal.quarantine.Keeps τ.given

namespace QueueInv

variable {c : MallocConfig} {lc : LogConfig} {τ : QueueTrace} {i : AllocInput}

theorem init (c : MallocConfig) (l : LogState) : QueueInv c (.init l) where
  inited := rfl
  heap := HeapInv.of_empty rfl rfl
  exact := ⟨rfl, Nat.two_pow_pos 64⟩
  within := Nat.zero_le _
  keeps := ⟨[], rfl, iff_of_false Bool.noConfusion (fun h => h rfl)⟩

theorem next (h : QueueInv c τ) (huaf : c.huUseafterfree = true) (hi : τ.Handles c i) :
    QueueInv c (τ.next c lc i) := by
  have htakes := fun hpos hmin => (hi.fits hpos hmin).takes hpos
  have hheap : HeapInv (.shaped c) (τ.next c lc i).session.tool (τ.next c lc i).session.client :=
    h.heap.huCall_keeps c lc i.ans i.call h.inited hi.handled htakes
  have hstep : (τ.next c lc i).session.tool.mal.quarantine =
      match τ.session.tool.mal.huActiveAllocs.lookup i.call.argument with
      | some b => τ.session.tool.mal.quarantine.push c.huQuarantineMaxSize b
      | none => τ.session.tool.mal.quarantine :=
    h.heap.huCall_quarantine h.exact c lc i.ans i.call huaf h.inited hi.handled htakes
  have hinited : (τ.next c lc i).session.tool.mal.huMallocInited = true := by
    rw [QueueTrace.next, Session.allocNext, huCall_inited, h.inited]
  have hgiven : (τ.next c lc i).given = τ.given ++ τ.session.gives i.call := rfl
  cases hb : τ.session.tool.mal.huActiveAllocs.lookup i.call.argument with
  | none =>
    rw [hb] at hstep
    rw [Session.gives, hb, Option.toList_none, List.append_nil] at hgiven
    refine ⟨hinited, hheap, h.exact.congr hstep, ?_, ?_⟩
    · rw [hstep]
      exact h.within
    · rw [hstep, hgiven]
      exact h.keeps
  | some b =>
    rw [hb] at hstep
    rw [Session.gives, hb, Option.toList_some] at hgiven
    have hlt := hheap.total_lt (List.sublist_append_right _ _)
    refine ⟨hinited, hheap, ⟨?_, hlt⟩, ?_, ?_⟩
    · show (τ.next c lc i).session.tool.mal.quarantine.size =
        total HuAllocInfo.sysSize (τ.next c lc i).session.tool.mal.quarantine.allocs
      rw [hstep]
      rfl
    · rw [hstep]
      exact total_trim_le _
    · rw [hstep, hgiven]
      exact h.keeps.push

end QueueInv

/-! ## §4 The policy -/

/-- What freeing the active block `b` at `p` does, from the state `s`. -/
structure Evicts (c : MallocConfig) (lc : LogConfig) (ans : SysAns) (p : Nat) (b : HuAllocInfo)
    (s s' : HuState) : Prop where
  /-- the loop takes turns until none is left -/
  turns : ReflTransGen (EvictTurn c lc ans) (enqueued c ans b (s.deactivated p)) s'
  ends : ∀ t, ¬ EvictTurn c lc ans s' t
  /-- in none of its states has the counter wrapped -/
  exact : ∀ t, ReflTransGen (EvictTurn c lc ans) (enqueued c ans b (s.deactivated p)) t →
    t.mal.Exact
  /-- the queue is trimmed to the limit -/
  longest : Longest HuAllocInfo.sysSize c.huQuarantineMaxSize (s.mal.huQuarantineAllocs ++ [b])
    s'.mal.huQuarantineAllocs
  /-- a block over the limit by itself leaves nothing -/
  alone : c.huQuarantineMaxSize < b.sysSize → s'.mal.huQuarantineAllocs = []
  /-- what leaves the queue goes back to the system, oldest first, each region once -/
  released : ∃ left, s.mal.huQuarantineAllocs ++ [b] = left ++ s'.mal.huQuarantineAllocs ∧
    s'.sys.returned = (left.map HuAllocInfo.region).reverse ++ s.sys.returned ∧
    (left.map HuAllocInfo.region).Nodup
  within : s'.mal.huQuarantineSize ≤ c.huQuarantineMaxSize

/-- With the tool on, freeing an active block quarantines it. -/
theorem HeapInv.huFree_active {Λ : Layout} {s : HuState} {L : ClientHeap} (hi : HeapInv Λ s L)
    {c : MallocConfig} (huaf : c.huUseafterfree = true) (lc : LogConfig) (ans : SysAns)
    (hinit : s.mal.huMallocInited = true) {p : Nat} {b : HuAllocInfo}
    (hb : s.mal.huActiveAllocs.lookup p = some b) :
    huFree c lc ans p s = quarantine c lc ans b (s.deactivated p) := by
  have hp : p ≠ 0 := fun h0 => hi.null_not_active (h0 ▸ mem_of_lookup hb)
  rw [huFree_of_active c lc ans hinit hp (hi.active_addr p b hb) hb, if_pos huaf]

theorem QueueInv.evicts {c : MallocConfig} {τ : QueueTrace} (h : QueueInv c τ)
    (huaf : c.huUseafterfree = true) (lc : LogConfig) (ans : SysAns) {p : Nat} {b : HuAllocInfo}
    (hb : τ.session.tool.mal.huActiveAllocs.lookup p = some b) :
    Evicts c lc ans p b τ.session.tool (huFree c lc ans p τ.session.tool) := by
  obtain ⟨hexact, hfields, hreturned⟩ := h.heap.quarantine_pushes h.exact c lc ans hb
  have hloop : ReflTransGen (EvictTurn c lc ans) (enqueued c ans b (τ.session.tool.deactivated p))
      (quarantine c lc ans b (τ.session.tool.deactivated p)) ∧
      ∀ t, ¬ EvictTurn c lc ans (quarantine c lc ans b (τ.session.tool.deactivated p)) t :=
    evictLoop_turns _ _ rfl
  have hallocs := congrArg Quarantine.allocs hfields
  have hsize := congrArg Quarantine.size hfields
  have hqueue : (quarantine c lc ans b (τ.session.tool.deactivated p)).mal.huQuarantineAllocs =
      trim HuAllocInfo.sysSize c.huQuarantineMaxSize
        (τ.session.tool.mal.huQuarantineAllocs ++ [b]) := hallocs
  have hsplit : overflow HuAllocInfo.sysSize c.huQuarantineMaxSize
      (τ.session.tool.mal.huQuarantineAllocs ++ [b]) ++ trim HuAllocInfo.sysSize
      c.huQuarantineMaxSize (τ.session.tool.mal.huQuarantineAllocs ++ [b]) =
      τ.session.tool.mal.huQuarantineAllocs ++ [b] := overflow_append_trim _
  rw [h.heap.huFree_active huaf lc ans h.inited hb]
  refine ⟨hloop.1, hloop.2, fun t ht => EvictTurn.exact_of_turns hexact ht, ?_, ?_, ?_, ?_⟩
  · rw [hqueue]
    exact longest_trim _
  · intro halone
    rw [hqueue]
    exact trim_concat_of_lt halone
  · refine ⟨_, by rw [hqueue]; exact hsplit.symm, hreturned, ?_⟩
    have hsub : List.Sublist (overflow HuAllocInfo.sysSize c.huQuarantineMaxSize
        (τ.session.tool.mal.huQuarantineAllocs ++ [b]))
        (τ.session.tool.mal.huQuarantineAllocs ++ [b]) := by
      conv_rhs => rw [← hsplit]
      exact List.sublist_append_left _ _
    exact (h.heap.enqueued_keeps c ans hb).regions_nodup
      (hsub.trans (List.sublist_append_right _ _))
  · exact hsize.le.trans (total_trim_le _)

end Heapusage
