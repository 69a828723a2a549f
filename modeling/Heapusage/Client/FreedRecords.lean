/-
Heapusage.Client.FreedRecords — the freed records of the log against the blocks
in the quarantine, with the use-after-free tool alone.

§1 Evictions — the log loses the records of the blocks that leave the queue
               (`huCall_log_eq`).
§2 Events    — the keys of `freed_allocations` after a call (`mem_logEvents_freed`).
§3 Steps     — a call keeps the keys equal to the addresses in the quarantine
               exactly if it keeps to `Session.RecordsKept` (`next_agrees_iff`).
§4 Runs      — `freed_records_agree_iff`; a block over the limit by itself leaves
               its record behind (`record_left_behind`).
-/
import Heapusage.Client.Quarantine
import Heapusage.Client.Tracking

namespace Heapusage

open Arenas Backlogs Runs Tables Words

/-! ## §1 Evictions -/

/-- With an exact counter the blocks taken are those that overflow the limit. -/
theorem evictedFrom_eq (c : MallocConfig) (q : List HuAllocInfo)
    (hword : total HuAllocInfo.sysSize q < 2 ^ 64) :
    evictedFrom c q (total HuAllocInfo.sysSize q) =
      overflow HuAllocInfo.sysSize c.huQuarantineMaxSize q := by
  induction q with
  | nil => rfl
  | cons info rest ih =>
    unfold evictedFrom overflow
    rw [total_cons] at hword ⊢
    rw [sub_eq (by omega) hword, Nat.add_sub_cancel_left, ih (by omega)]

theorem MallocState.joined_owned (m : MallocState) {p : Nat} {b : HuAllocInfo}
    (hb : m.huActiveAllocs.lookup p = some b) :
    ∀ d ∈ m.huQuarantineAllocs ++ [b], d ∈ m.owned := by
  intro d hd
  rcases List.mem_append.mp hd with hd | hd
  · exact MallocState.queue_owned hd
  · rw [List.mem_singleton.mp hd]
    exact MallocState.active_owned hb

namespace HeapInv

variable {Λ : Layout} {s : HuState} {L : ClientHeap}

/-- The blocks that leave the quarantine when the block at `p` is given up. -/
def leaving (c : MallocConfig) (p : Nat) (m : MallocState) : List HuAllocInfo :=
  match m.huActiveAllocs.lookup p with
  | some b => overflow HuAllocInfo.sysSize c.huQuarantineMaxSize (m.huQuarantineAllocs ++ [b])
  | none => []

theorem huFree_log_leaving (hi : HeapInv Λ s L) (hs : s.mal.Exact) (c : MallocConfig)
    (lc : LogConfig) (ans : SysAns) (p : Nat) (huaf : c.huUseafterfree = true)
    (hinit : s.mal.huMallocInited = true) :
    (huFree c lc ans p s).log = forgetFreed lc (leaving c p s.mal) s.log := by
  rw [huFree_log_eq c lc ans p s hinit]
  unfold MallocState.evictions leaving
  cases hb : s.mal.huActiveAllocs.lookup p with
  | none => simp
  | some b =>
    have hmem := mem_of_lookup hb
    have hp : p ≠ 0 := fun h0 => hi.null_not_active (h0 ▸ hmem)
    have haddr := hi.active_addr p b hb
    have hexact := (hi.quarantine_pushes hs c lc ans hb).1
    have hword : total HuAllocInfo.sysSize (s.mal.huQuarantineAllocs ++ [b]) < 2 ^ 64 :=
      hexact.word
    have hsize : add 64 s.mal.huQuarantineSize b.sysSize =
        total HuAllocInfo.sysSize (s.mal.huQuarantineAllocs ++ [b]) := hexact.size
    rw [if_pos ⟨huaf, hp, haddr⟩]
    simp only
    rw [hsize, evictedFrom_eq c _ hword]

/-- **A call of the allocator drops the records of the blocks that leave the
quarantine**, and changes nothing else in the log. -/
theorem huCall_log_eq (hi : HeapInv Λ s L) (hs : s.mal.Exact) (c : MallocConfig)
    (lc : LogConfig) (ans : SysAns) (call : Call) (huaf : c.huUseafterfree = true)
    (hinit : s.mal.huMallocInited = true) (hcall : call.Handled s L)
    (htakes : 0 < call.requested → c.huMinsize ≤ call.requested → Λ.Takes c call.requested) :
    (huCall c lc ans call s).1.log = forgetFreed lc (leaving c call.argument s.mal) s.log := by
  have hnull : leaving c 0 s.mal = [] := by
    simp [leaving, AList.lookup_eq_none.mpr hi.null_not_active]
  cases call with
  | malloc size =>
    simp only [huCall, Call.argument, hnull]
    exact huMalloc_log c ans size s
  | free ptr => exact hi.huFree_log_leaving hs c lc ans ptr huaf hinit
  | calloc nmemb size =>
    simp only [huCall, Call.argument, hnull]
    exact huCalloc_log c ans nmemb size s
  | realloc ptr size =>
    simp only [huCall, Call.argument]
    rcases huRealloc_cases c lc ans ptr size s hinit with ⟨hp, h⟩ | ⟨-, -, h⟩ |
      ⟨hne, -, b, hb, h⟩ | ⟨-, -, hb, h⟩
    · rw [h, hp, hnull]
      exact huMalloc_log c ans size s
    · rw [h]
      exact hi.huFree_log_leaving hs c lc ans ptr huaf hinit
    · have hmem : ptr ∈ L.ptrs := hcall.resolve_left hne
      have hcopied := hi.reallocCopied_keeps c ans b size htakes
      have hqp := hi.huMalloc_ne c ans size htakes hmem
      have hsame : (reallocCopied c ans b size s).mal.quarantine = s.mal.quarantine := by
        rw [reallocCopied_mal, huMalloc_quarantine]
      have hfree := hcopied.huFree_log_leaving (hs.congr hsame) c lc ans ptr huaf
        (by simpa using hinit)
      have hleaving : leaving c ptr (reallocCopied c ans b size s).mal = leaving c ptr s.mal := by
        unfold leaving
        rw [reallocCopied_mal, huMalloc_lookup_ne c ans size s hqp, huMalloc_queue]
      rw [h, hfree, hleaving, reallocCopied_log]
    · rw [h]
      simp only [leaving, hb]
      rfl

/-- Blocks with the same address are the same block. -/
theorem userPtr_inj (hi : HeapInv Λ s L) {b d : HuAllocInfo} (hb : b ∈ s.mal.owned)
    (hd : d ∈ s.mal.owned) (h : b.userPtr = d.userPtr) : b = d := by
  have hholds := Λ.holds b (hi.owned_good b hb)
  rw [h] at hholds
  have hregion := s.sys.arena.eq_of_holds (hi.owned_live b hb) (hi.owned_live d hd) hholds
    (Λ.holds d (hi.owned_good d hd))
  exact hi.owned_inj hb hd (congrArg Block.base hregion)

/-- The addresses of the queue with an active block at its end are all different. -/
theorem joined_nodup (hi : HeapInv Λ s L) {p : Nat} {b : HuAllocInfo}
    (hb : s.mal.huActiveAllocs.lookup p = some b) :
    ((s.mal.huQuarantineAllocs ++ [b]).map HuAllocInfo.userPtr).Nodup := by
  have hown : b ∈ s.mal.owned := MallocState.active_owned hb
  have hnd : (values s.mal.huActiveAllocs ++ s.mal.huQuarantineAllocs).Nodup :=
    hi.owned_nodup.of_map
  obtain ⟨-, hqueue, hapart⟩ := List.nodup_append.mp hnd
  have hnot : b ∉ s.mal.huQuarantineAllocs := fun hmem =>
    hapart b (mem_values_of_lookup hb) b hmem rfl
  have hall : (s.mal.huQuarantineAllocs ++ [b]).Nodup := by
    have hconcat := List.Nodup.concat hnot hqueue
    rwa [List.concat_eq_append] at hconcat
  exact hall.map_on fun d hd e he h =>
    hi.userPtr_inj (s.mal.joined_owned hb d hd) (s.mal.joined_owned hb e he) h

end HeapInv

/-! ## §2 Events -/

section Events

variable {c : LogConfig} {e : CallEnv} {q : Nat} {call : Call} {l : LogState}

/-- Without the double-free tool a free event moves a listed pointer over, and
does nothing else to the freed records. -/
theorem mem_logFree_freed (hkeep : c.keepsFreed = true) (hdf : c.huLogFree = false) (p : Nat)
    (cs : Callstack) {k : Nat} : k ∈ (logFree c p cs l).freedAllocations ↔
      k ∈ l.freedAllocations ∨ (k = p ∧ p ∈ l.allocations) := by
  cases hp : l.allocations.lookup p with
  | some info =>
    rw [logFree_freed_listed c p cs l hp, if_pos hkeep, mem_insertNew]
    simp [mem_of_lookup hp, or_comm]
  | none =>
    rw [logFree_freed]
    simp [logFreeTables, hp, hdf, not_mem_of_lookup_none hp]

/-- The freed records after the events of a call that returned `q`. -/
theorem mem_logEvents_freed (hkeep : c.keepsFreed = true) (hdf : c.huLogFree = false)
    (hlog : l.loggingEnabled = true) (h0 : 0 ∉ l.allocations) {k : Nat} :
    k ∈ (logEvents c e q call l).freedAllocations ↔
      (k ∈ l.freedAllocations ∨ (k = call.argument ∧ call.argument ∈ l.allocations)) ∧
        ¬ (0 < call.requested ∧ k = q) := by
  have hfree : k ∈ (freeEvent c e call l).freedAllocations ↔
      k ∈ l.freedAllocations ∨ (k = call.argument ∧ call.argument ∈ l.allocations) := by
    cases hfr : call.frees with
    | none =>
      rw [freeEvent_of_none _ _ _ _ hfr, Call.frees_eq_none hfr]
      simp [h0]
    | some p =>
      rw [freeEvent_of_some _ _ _ _ hfr hlog, Call.frees_eq_some hfr]
      exact mem_logFree_freed hkeep hdf p e.freeStack
  unfold logEvents
  cases hal : call.allocs with
  | none =>
    have hzero := Call.allocs_eq_none.mp hal
    rw [allocEvent_of_none _ _ _ _ _ hal, hfree]
    simp [hzero]
  | some n =>
    have hpos : 0 < call.requested := by
      refine Nat.pos_of_ne_zero fun hz => ?_
      rw [Call.allocs_eq_none.mpr hz] at hal
      cases hal
    have hon : (freeEvent c e call l).loggingEnabled = true := by rw [freeEvent_enabled, hlog]
    rw [allocEvent_of_some _ _ _ _ _ hal hon, logMalloc_freed, if_pos hkeep, AList.mem_erase, hfree]
    simp only [hpos, true_and]
    exact and_comm

end Events

/-- Without the double-free tool the records of evicted blocks go. -/
theorem mem_forgetFreed {lc : LogConfig} (hdf : lc.huLogFree = false) (blocks : List HuAllocInfo)
    (l : LogState) {k : Nat} : k ∈ (forgetFreed lc blocks l).freedAllocations ↔
      k ∈ l.freedAllocations ∧ k ∉ blocks.map HuAllocInfo.userPtr := by
  rw [← AList.lookup_isSome, forgetFreed_lookup]
  by_cases hk : k ∈ blocks.map HuAllocInfo.userPtr
  · simp [hdf, hk]
  · simp [hk, AList.lookup_isSome]

/-! ## §3 Steps -/

/-- The addresses of the blocks in the quarantine. -/
def MallocState.quarantined (m : MallocState) : List Nat :=
  m.huQuarantineAllocs.map HuAllocInfo.userPtr

/-- The keys of `freed_allocations` are these addresses. -/
def HuState.FreedAgree (s : HuState) : Prop :=
  ∀ k, k ∈ s.log.freedAllocations ↔ k ∈ s.mal.quarantined

/-- A fenced block that is given up is within the limit by itself; a tracked block
that is not fenced is given up only by a `realloc` that the system answers with
the same address. -/
structure Session.RecordsKept (c : HuConfig) (σ : Session) (i : Input) : Prop where
  within : ∀ b, σ.tool.mal.huActiveAllocs.lookup i.call.argument = some b →
    b.sysSize ≤ c.huQuarantineMaxSize
  inPlace : i.call.argument ∈ σ.tool.log.allocations →
    i.call.argument ∉ σ.tool.mal.huActiveAllocs →
    0 < i.call.requested ∧ i.env.ans.ptr = i.call.argument

instance (c : HuConfig) (σ : Session) (i : Input) : Decidable (σ.RecordsKept c i) :=
  decidable_of_iff
    ((∀ b ∈ σ.tool.mal.huActiveAllocs.lookup i.call.argument,
        b.sysSize ≤ c.huQuarantineMaxSize) ∧
      (i.call.argument ∈ σ.tool.log.allocations →
        i.call.argument ∉ σ.tool.mal.huActiveAllocs →
        0 < i.call.requested ∧ i.env.ans.ptr = i.call.argument))
    ⟨fun ⟨h1, h2⟩ => ⟨h1, h2⟩, fun h => ⟨h.1, h.2⟩⟩

/-- The invariant of a run: that of the session, an exact counter, and the agreement. -/
structure RecordInv (c : HuConfig) (σ : Session) : Prop where
  session : SessionInv c σ
  exact : σ.tool.mal.Exact
  agrees : σ.tool.FreedAgree

/-- What the proofs of a step use, for a call that returned `q`. -/
structure RecordFacts (c : HuConfig) (σ : Session) (i : Input) (q : Nat) : Prop where
  quarantine : (σ.next c i).tool.mal.quarantine =
    match σ.tool.mal.huActiveAllocs.lookup i.call.argument with
    | some b => σ.tool.mal.quarantine.push c.huQuarantineMaxSize b
    | none => σ.tool.mal.quarantine
  freed : ∀ k, k ∈ (σ.next c i).tool.log.freedAllocations ↔
    ((k ∈ σ.tool.log.freedAllocations ∧ k ∉
        (HeapInv.leaving c.mallocConfig i.call.argument σ.tool.mal).map HuAllocInfo.userPtr) ∨
      (k = i.call.argument ∧ i.call.argument ∈ σ.tool.log.allocations)) ∧
    ¬ (0 < i.call.requested ∧ k = q)
  fresh : ∀ b ∈ σ.tool.mal.owned, b.userPtr ≠ q
  /-- a block that is not fenced goes through the C library -/
  answered : 0 < i.call.requested → i.call.argument ≠ 0 →
    i.call.argument ∉ σ.tool.mal.huActiveAllocs → q = i.env.ans.ptr

namespace RecordInv

variable {c : HuConfig} {σ : Session} {i : Input}

theorem init (c : HuConfig) : RecordInv c (.init c) := by
  have hqueue : (Session.init c).tool.mal.huQuarantineAllocs = [] := huInit_queue c
  have hsize : (Session.init c).tool.mal.huQuarantineSize = 0 := by
    unfold Session.init huInit
    cases c.huEnableHumalloc <;> rfl
  refine ⟨SessionInv.init c, ⟨?_, ?_⟩, ?_⟩
  · rw [hsize, hqueue, total_nil]
  · rw [hqueue]
    exact Nat.two_pow_pos 64
  · intro k
    rw [MallocState.quarantined, hqueue]
    simp [Session.init, huInit, logEnable, logInit]

theorem facts (h : RecordInv c σ) (huaf : c.huUseafterfree = true) (hdf : c.huDoublefree = false)
    (hi : σ.Clean c i) : RecordFacts c σ i (σ.result c i).2 := by
  have hon : c.huEnableHumalloc = true := by simp [HuConfig.huEnableHumalloc, huaf]
  have hinit : σ.tool.mal.huMallocInited = true := by rw [h.session.configured.inited, hon]
  have hhandled : i.call.Handled σ.tool σ.client := hi.permitted.handled
  have htakes : 0 < i.call.requested → c.mallocConfig.huMinsize ≤ i.call.requested →
      (Layout.placed c.mallocConfig).Takes c.mallocConfig i.call.requested :=
    fun hpos hmin => (hi.fits hon hpos hmin).placed.takes hpos hmin
  have hresult : (σ.result c i).2 =
      (huCall c.mallocConfig c.logConfig i.env.ans i.call σ.tool).2 :=
    fenced_result hon i.env i.call σ.tool
  have hlog := h.session.heap.huCall_log_eq h.exact c.mallocConfig c.logConfig i.env.ans i.call huaf
    hinit hhandled htakes
  constructor
  · have hmal : (σ.next c i).tool.mal =
        (huCall c.mallocConfig c.logConfig i.env.ans i.call σ.tool).1.mal :=
      fenced_mal hon i.env i.call σ.tool
    rw [hmal]
    exact h.session.heap.huCall_quarantine h.exact c.mallocConfig c.logConfig i.env.ans i.call huaf
      hinit hhandled htakes
  · intro k
    have hkeep : c.logConfig.keepsFreed = true := by
      simp [LogConfig.keepsFreed, HuConfig.logConfig, huaf]
    have hev := forgetFreed_evicted c.logConfig
      (HeapInv.leaving c.mallocConfig i.call.argument σ.tool.mal) σ.tool.log
    have hnull : 0 ∉ σ.tool.log.allocations :=
      h.session.mirror.not_listed h.session.heap.null_not_held
    have hevents : (σ.next c i).tool.log = logEvents c.logConfig i.env (σ.result c i).2 i.call
        (huCall c.mallocConfig c.logConfig i.env.ans i.call σ.tool).1.log := by
      rw [hresult]
      exact fenced_log hon i.env i.call σ.tool
    rw [hevents, hlog, mem_logEvents_freed hkeep hdf
      (by rw [hev.enabled, h.session.configured.logging]) (by rwa [hev.allocations]),
      mem_forgetFreed hdf, hev.allocations]
  · intro b hb
    rw [hresult]
    exact h.session.heap.huCall_fresh c.mallocConfig c.logConfig i.env.ans i.call hinit hhandled
      htakes hb
  · intro hpos hne hact
    have hq0 : (σ.result c i).2 ≠ 0 := fun hq => hi.succeeds ⟨hpos.ne', hq⟩
    rw [hresult] at hq0 ⊢
    exact (huCall_answer c.mallocConfig c.logConfig i.env.ans hinit hpos hne hact).resolve_left hq0

/-- A queued block's address is not returned. -/
theorem queued_ne {q : Nat} (f : RecordFacts c σ i q) {k : Nat}
    (hk : k ∈ σ.tool.mal.quarantined) : k ≠ q := by
  obtain ⟨b, hb, rfl⟩ := List.mem_map.mp hk
  exact f.fresh b (MallocState.queue_owned hb)

section Given

variable {q : Nat} {b : HuAllocInfo}

/-- A fenced block that is given up joins the queue, and what overflows the limit
leaves it. -/
theorem queue_given (f : RecordFacts c σ i q)
    (hb : σ.tool.mal.huActiveAllocs.lookup i.call.argument = some b) :
    (σ.next c i).tool.mal.huQuarantineAllocs = trim HuAllocInfo.sysSize
      c.huQuarantineMaxSize (σ.tool.mal.huQuarantineAllocs ++ [b]) := by
  have hpush := f.quarantine
  rw [hb] at hpush
  exact congrArg Quarantine.allocs hpush

/-- The addresses that stay are those that do not leave. -/
theorem mem_quarantined_given (h : RecordInv c σ) (f : RecordFacts c σ i q)
    (hb : σ.tool.mal.huActiveAllocs.lookup i.call.argument = some b) {k : Nat} :
    k ∈ (σ.next c i).tool.mal.quarantined ↔
      (k ∈ σ.tool.mal.quarantined ∨ k = i.call.argument) ∧
        k ∉ (HeapInv.leaving c.mallocConfig i.call.argument σ.tool.mal).map
          HuAllocInfo.userPtr := by
  have hkey : b.userPtr = i.call.argument := h.session.heap.active_key _ b hb
  have hleaving : HeapInv.leaving c.mallocConfig i.call.argument σ.tool.mal =
      overflow HuAllocInfo.sysSize c.huQuarantineMaxSize
        (σ.tool.mal.huQuarantineAllocs ++ [b]) := by
    rw [HeapInv.leaving, hb]
    rfl
  have hall : k ∈ (σ.tool.mal.huQuarantineAllocs ++ [b]).map HuAllocInfo.userPtr ↔
      k ∈ σ.tool.mal.quarantined ∨ k = i.call.argument := by
    simp [MallocState.quarantined, hkey]
  rw [← hall, MallocState.quarantined, queue_given f hb, hleaving]
  exact mem_map_trim (h.session.heap.joined_nodup hb)

/-- The block itself is among them exactly if it is within the limit. -/
theorem given_quarantined_iff (h : RecordInv c σ) (f : RecordFacts c σ i q)
    (hb : σ.tool.mal.huActiveAllocs.lookup i.call.argument = some b) :
    i.call.argument ∈ (σ.next c i).tool.mal.quarantined ↔
      b.sysSize ≤ c.huQuarantineMaxSize := by
  have hkey : b.userPtr = i.call.argument := h.session.heap.active_key _ b hb
  rw [← mem_trim_concat (q := σ.tool.mal.huQuarantineAllocs), MallocState.quarantined,
    queue_given f hb, List.mem_map]
  constructor
  · intro hmem
    obtain ⟨d, hd, hdp⟩ := hmem
    have hjoined := σ.tool.mal.joined_owned hb d ((trim_suffix _).subset hd)
    have hdb : d = b :=
      h.session.heap.userPtr_inj hjoined (MallocState.active_owned hb) (hdp.trans hkey.symm)
    rwa [hdb] at hd
  · exact fun hmem => ⟨b, hmem, hkey⟩

/-- The freed records: the block is among them whether it stays or not. -/
theorem mem_freed_given (h : RecordInv c σ) (f : RecordFacts c σ i q)
    (hperm : i.call.Permitted σ.client)
    (hb : σ.tool.mal.huActiveAllocs.lookup i.call.argument = some b) {k : Nat} :
    k ∈ (σ.next c i).tool.log.freedAllocations ↔
      (k ∈ σ.tool.mal.quarantined ∧ k ∉
        (HeapInv.leaving c.mallocConfig i.call.argument σ.tool.mal).map HuAllocInfo.userPtr) ∨
      k = i.call.argument := by
  have hheap := h.session.heap
  have hmem := mem_of_lookup hb
  have hkey : b.userPtr = i.call.argument := hheap.active_key _ b hb
  have hp : i.call.argument ≠ 0 := fun h0 => hheap.null_not_active (h0 ▸ hmem)
  have hlisted := h.session.tracked_of_active hperm hp hmem
  have hne : k ∈ σ.tool.mal.quarantined ∨ k = i.call.argument → k ≠ q := by
    rintro (hk | hk)
    · exact queued_ne f hk
    · rw [hk, ← hkey]
      exact f.fresh b (MallocState.active_owned hb)
  rw [f.freed k, h.agrees k]
  tauto

/-- Giving up a fenced block keeps the agreement exactly if it is not over the
limit by itself. -/
theorem agrees_given_iff (h : RecordInv c σ) (f : RecordFacts c σ i q)
    (hperm : i.call.Permitted σ.client)
    (hb : σ.tool.mal.huActiveAllocs.lookup i.call.argument = some b) :
    (σ.next c i).tool.FreedAgree ↔ b.sysSize ≤ c.huQuarantineMaxSize := by
  rw [← h.given_quarantined_iff f hb]
  constructor
  · intro hagrees
    exact (hagrees _).mp ((h.mem_freed_given f hperm hb).mpr (.inr rfl))
  · intro harg k
    have hkept := (h.mem_quarantined_given f hb).mp harg
    rw [h.mem_freed_given f hperm hb, h.mem_quarantined_given f hb]
    constructor
    · rintro (⟨hk, hno⟩ | rfl)
      · exact ⟨.inl hk, hno⟩
      · exact hkept
    · rintro ⟨hk | hk, hno⟩
      · exact .inl ⟨hk, hno⟩
      · exact .inr hk

end Given

/-- A tracked block that is not fenced is not in the quarantine. -/
theorem plain_not_queued (h : RecordInv c σ) {p : Nat} (hp : p ∈ σ.tool.log.allocations)
    (hact : p ∉ σ.tool.mal.huActiveAllocs) : p ∉ σ.tool.mal.quarantined := by
  intro hqueued
  obtain ⟨b, hb, rfl⟩ := List.mem_map.mp hqueued
  have hheap := h.session.heap
  have hheld : b.userPtr ∈ σ.client.ptrs := by
    by_contra hnot
    exact h.session.mirror.not_listed hnot hp
  obtain ⟨n, -, hlive⟩ := hheap.passed_through hheld (AList.lookup_eq_none.mpr hact)
  exact hheap.malloc_ne_userPtr hlive (MallocState.queue_owned hb) rfl

section Plain

variable {q : Nat}

/-- The freed records after another block is given up: it is one of them if it was
tracked and is not received again. -/
theorem mem_freed_plain (h : RecordInv c σ) (f : RecordFacts c σ i q)
    (hact : i.call.argument ∉ σ.tool.mal.huActiveAllocs) {k : Nat} :
    k ∈ (σ.next c i).tool.log.freedAllocations ↔
      k ∈ σ.tool.mal.quarantined ∨ (k = i.call.argument ∧
        i.call.argument ∈ σ.tool.log.allocations ∧
        ¬ (0 < i.call.requested ∧ i.call.argument = q)) := by
  have hne : k ∈ σ.tool.mal.quarantined → k ≠ q := queued_ne f
  rw [f.freed k, h.agrees k, HeapInv.leaving, AList.lookup_eq_none.mpr hact]
  simp only [List.map_nil, List.not_mem_nil, not_false_eq_true, and_true]
  constructor
  · rintro ⟨hk | ⟨rfl, hlisted⟩, hno⟩
    · exact .inl hk
    · exact .inr ⟨rfl, hlisted, hno⟩
  · rintro (hk | ⟨rfl, hlisted, hno⟩)
    · exact ⟨.inl hk, fun hkq => hne hk hkq.2⟩
    · exact ⟨.inr ⟨rfl, hlisted⟩, hno⟩

/-- A tracked block of the C library is received where the system puts it. -/
theorem received_plain (h : RecordInv c σ) (f : RecordFacts c σ i q)
    (hact : i.call.argument ∉ σ.tool.mal.huActiveAllocs)
    (hlisted : i.call.argument ∈ σ.tool.log.allocations) (hpos : 0 < i.call.requested) :
    q = i.env.ans.ptr := by
  refine f.answered hpos ?_ hact
  intro h0
  exact h.session.mirror.not_listed h.session.heap.null_not_held (h0 ▸ hlisted)

/-- Giving up another block keeps it exactly if the block is not tracked, or its
address is received again. -/
theorem agrees_plain_iff (h : RecordInv c σ) (f : RecordFacts c σ i q)
    (hact : i.call.argument ∉ σ.tool.mal.huActiveAllocs) :
    (σ.next c i).tool.FreedAgree ↔ (i.call.argument ∈ σ.tool.log.allocations →
      0 < i.call.requested ∧ i.env.ans.ptr = i.call.argument) := by
  have hsame : (σ.next c i).tool.mal.quarantined = σ.tool.mal.quarantined := by
    have hqueue := f.quarantine
    rw [AList.lookup_eq_none.mpr hact] at hqueue
    exact congrArg (fun Q => Q.allocs.map HuAllocInfo.userPtr) hqueue
  unfold HuState.FreedAgree
  simp only [hsame, h.mem_freed_plain f hact]
  constructor
  · intro hall hlisted
    by_contra hno
    refine h.plain_not_queued hlisted hact ((hall _).mp (.inr ⟨rfl, hlisted, ?_⟩))
    rintro ⟨hpos, hq⟩
    exact hno ⟨hpos, (hq.trans (h.received_plain f hact hlisted hpos)).symm⟩
  · intro hcond k
    constructor
    · rintro (hk | ⟨-, hlisted, hno⟩)
      · exact hk
      · obtain ⟨hpos, hans⟩ := hcond hlisted
        exact absurd ⟨hpos, by rw [h.received_plain f hact hlisted hpos, hans]⟩ hno
    · exact .inl

end Plain

/-- **A call keeps the agreement exactly if it keeps to the condition.** -/
theorem next_agrees_iff (h : RecordInv c σ) (huaf : c.huUseafterfree = true)
    (hdf : c.huDoublefree = false) (hi : σ.Clean c i) :
    (σ.next c i).tool.FreedAgree ↔ σ.RecordsKept c i := by
  have f := h.facts huaf hdf hi
  by_cases hact : i.call.argument ∈ σ.tool.mal.huActiveAllocs
  · obtain ⟨b, hb⟩ := exists_lookup hact
    rw [h.agrees_given_iff f hi.permitted hb]
    constructor
    · intro hle
      refine ⟨fun d hd => ?_, fun _ hplain => absurd hact hplain⟩
      rw [hb] at hd
      cases hd
      exact hle
    · exact fun hkept => hkept.within b hb
  · rw [h.agrees_plain_iff f hact]
    constructor
    · intro hcond
      refine ⟨fun b hb => absurd (mem_of_lookup hb) hact, fun hlisted _ => hcond hlisted⟩
    · exact fun hkept hlisted => hkept.inPlace hlisted hact

theorem next (h : RecordInv c σ) (huaf : c.huUseafterfree = true) (hdf : c.huDoublefree = false)
    (hi : σ.Clean c i) (hkept : σ.RecordsKept c i) : RecordInv c (σ.next c i) := by
  have hsession := h.session.next hi.sound
  have hpush := (h.facts huaf hdf hi).quarantine
  refine ⟨hsession, ?_, (h.next_agrees_iff huaf hdf hi).mpr hkept⟩
  cases hb : σ.tool.mal.huActiveAllocs.lookup i.call.argument with
  | none =>
    rw [hb] at hpush
    exact h.exact.congr hpush
  | some b =>
    rw [hb] at hpush
    have hallocs := congrArg Quarantine.allocs hpush
    have hsize := congrArg Quarantine.size hpush
    refine ⟨?_, hsession.heap.total_lt (List.sublist_append_right _ _)⟩
    exact hsize.trans (congrArg (total HuAllocInfo.sysSize) hallocs.symm)

end RecordInv

/-! ## §4 Runs -/

/-- **The freed records are the quarantine, exactly as long as every call keeps to
the condition**: every limit, every minimum size, every run of calls that do not
fail. -/
theorem freed_records_agree_iff (c : HuConfig) (huaf : c.huUseafterfree = true)
    (hdf : c.huDoublefree = false) (is : List Input)
    (hrun : Along (Session.next c) (Session.Clean c) (.init c) is) :
    Along (Session.next c) (fun σ i => (σ.next c i).tool.FreedAgree) (.init c) is ↔
      Along (Session.next c) (Session.RecordsKept c) (.init c) is := by
  have hstep : ∀ σ i, RecordInv c σ → σ.Clean c i → σ.RecordsKept c i → RecordInv c (σ.next c i) :=
    fun _ _ h hi hkept => h.next huaf hdf hi hkept
  have hiff : ∀ σ i, RecordInv c σ → σ.Clean c i →
      ((σ.next c i).tool.FreedAgree ↔ σ.RecordsKept c i) :=
    fun _ _ h hi => h.next_agrees_iff huaf hdf hi
  exact Along.exact hstep hiff is _ (RecordInv.init c) hrun

/-- Room for two pages: the third block freed drives the first one out. -/
theorem freed_records_agree_evicting :
    let c := { HuConfig.tools false false true 8 with huQuarantineMaxSize := 8192 }
    let is : List Input := [⟨.malloc 8, .answering 8192⟩, ⟨.free 8192, .answering 0⟩,
      ⟨.malloc 8, .answering 16384⟩, ⟨.free 16384, .answering 0⟩,
      ⟨.malloc 4, .answering 64⟩, ⟨.malloc 8, .answering 24576⟩, ⟨.free 64, .answering 0⟩,
      ⟨.realloc 24576 100, .answering 32768⟩]
    Along (Session.next c) (fun σ i => (σ.next c i).tool.FreedAgree) (.init c) is := by
  intro c is
  exact (freed_records_agree_iff c rfl rfl is (by decide)).mpr (by decide)

/-- A block over the limit by itself: its region has gone back to the system, and
the record is there. -/
theorem record_left_behind :
    let c := HuConfig.tools false false true 8
    let is : List Input := [⟨.malloc 8, .answering 8192⟩, ⟨.free 8192, .answering 0⟩]
    let s := (exec (Session.next c) (.init c) is).tool
    Along (Session.next c) (Session.Clean c) (.init c) is ∧
      8192 ∈ s.log.freedAllocations ∧ s.mal.huQuarantineAllocs = [] ∧ ¬ s.FreedAgree := by
  intro c is s
  have hrecord : 8192 ∈ s.log.freedAllocations := by decide
  have hgone : s.mal.quarantined = [] := by decide
  refine ⟨by decide, hrecord, by decide, fun h => ?_⟩
  have hqueued := (h 8192).mp hrecord
  rw [hgone] at hqueued
  cases hqueued

end Heapusage
