/-
Heapusage.Client.Accesses — which accesses of a program fault.

An access faults if the page of its address is protected. The protection map is
known zone by zone (`PageInv`); here it is told from the program's side: by the
blocks it holds, and by the fenced blocks it has given up, oldest first.

§1 The queue — with the tool off it stays empty (`huCall_queue_off`); with the
               tool on it is what the limit leaves of all blocks given up.
§2 Runs      — the invariant (`AccessInv.next`).
§3 The accesses that fault (`access_faults_iff`); how long a block that was given
               up stays guarded (`dangling_access_faults`).
-/
import Heapusage.Client.Quarantine
import Heapusage.Client.Refinement

namespace Heapusage

open Arenas Backlogs Runs Tables Words Zones

/-! ## §1 The queue -/

section Off

variable {c : MallocConfig} {lc : LogConfig} {ans : SysAns} {s : HuState}

theorem huFree_queue_off (huaf : c.huUseafterfree = false) (hinit : s.mal.huMallocInited = true)
    (p : Nat) : (huFree c lc ans p s).mal.huQuarantineAllocs = s.mal.huQuarantineAllocs := by
  rcases huFree_cases c lc ans p s hinit with ⟨-, h⟩ | ⟨-, -, h⟩ | ⟨-, -, -, h⟩ |
    ⟨-, -, b, -, h⟩
  · rw [h]
  · rw [h]
    rfl
  · rw [h]
  · rw [h]
    simp [huaf, HuState.libcFree]

/-- **Without use-after-free detection no block joins the queue.** -/
theorem huCall_queue_off (huaf : c.huUseafterfree = false) (hinit : s.mal.huMallocInited = true)
    (call : Call) :
    (huCall c lc ans call s).1.mal.huQuarantineAllocs = s.mal.huQuarantineAllocs := by
  cases call with
  | malloc size => exact huMalloc_queue c ans size s
  | free ptr => exact huFree_queue_off huaf hinit ptr
  | calloc nmemb size =>
    simp only [huCall]
    rcases huCalloc_cases c ans nmemb size s hinit with ⟨-, h⟩ | ⟨-, h⟩ | ⟨-, -, h⟩
    · rw [h]
      rfl
    · rw [h]
    · rw [h, callocCleared_mal, huMalloc_queue]
  | realloc ptr size =>
    simp only [huCall]
    rcases huRealloc_cases c lc ans ptr size s hinit with ⟨-, h⟩ | ⟨-, -, h⟩ |
      ⟨-, -, b, -, h⟩ | ⟨-, -, -, h⟩
    · rw [h, huMalloc_queue]
    · rw [h]
      exact huFree_queue_off huaf hinit ptr
    · rw [h, huFree_queue_off huaf (by simpa using hinit), reallocCopied_mal, huMalloc_queue]
    · rw [h]
      rfl

end Off

/-- What is left in the quarantine of the blocks given up. -/
def MallocConfig.kept (c : MallocConfig) (given : List HuAllocInfo) : List HuAllocInfo :=
  if c.huUseafterfree then trim HuAllocInfo.sysSize c.huQuarantineMaxSize given else []

/-! ## §2 Runs -/

/-- What holds between calls. -/
structure AccessInv (c : MallocConfig) (τ : QueueTrace) : Prop where
  alloc : AllocInv c τ.session
  quarantine : c.huUseafterfree = true → QueueInv c τ
  queue : τ.session.tool.mal.huQuarantineAllocs = c.kept τ.given
  /-- every active block is with the program -/
  mine : ∀ k b, τ.session.tool.mal.huActiveAllocs.lookup k = some b →
    (k, b.userSize) ∈ τ.session.client

namespace AccessInv

variable {c : MallocConfig} {lc : LogConfig} {τ : QueueTrace} {i : AllocInput}

theorem init (c : MallocConfig) (l : LogState) : AccessInv c (.init l) where
  alloc := AllocInv.init l
  quarantine := fun _ => QueueInv.init c l
  queue := by
    unfold MallocConfig.kept
    split <;> rfl
  mine := fun k b hk => by simp [QueueTrace.init, Session.allocInit, huMallocInit] at hk

theorem next_mine (h : AccessInv c τ) (hi : τ.session.Handles c i) {k : Nat} {b : HuAllocInfo}
    (hk : (τ.next c lc i).session.tool.mal.huActiveAllocs.lookup k = some b) :
    (k, b.userSize) ∈ (τ.next c lc i).session.client := by
  have htakes := fun hpos hmin => (hi.fits hpos hmin).takes hpos
  have hnext : AllocInv c (τ.next c lc i).session := h.alloc.next hi
  have hmoves := h.alloc.heap.huCall_moves c lc i.ans i.call h.alloc.inited hi.handled htakes
  rcases hmoves.active k b hk with ⟨rfl, hsize, -⟩ | ⟨hold, hne⟩
  · have hq : (huCall c lc i.ans i.call τ.session.tool).2 ≠ 0 := by
      intro h0
      rw [h0] at hk
      exact hnext.heap.null_not_active (mem_of_lookup hk)
    rw [hsize]
    refine Call.returned_mem_after hq fun ptr hfree => hq ?_
    exact huCall_free i.ans i.call τ.session.tool c lc hfree
  · exact Call.mem_after (h.mine k b hold) hne

/-- Given up blocks join the queue, as many as there is room for. -/
theorem next_queue (h : AccessInv c τ) (hi : τ.session.Handles c i) :
    (τ.next c lc i).session.tool.mal.huQuarantineAllocs = c.kept (τ.next c lc i).given := by
  have htakes := fun hpos hmin => (hi.fits hpos hmin).takes hpos
  have hqueue := h.queue
  cases huaf : c.huUseafterfree with
  | false =>
    have hsame : (τ.next c lc i).session.tool.mal.huQuarantineAllocs =
        τ.session.tool.mal.huQuarantineAllocs := huCall_queue_off huaf h.alloc.inited i.call
    simp only [MallocConfig.kept, huaf, Bool.false_eq_true, if_false] at hqueue ⊢
    rw [hsame, hqueue]
  | true =>
    have hstep := congrArg Quarantine.allocs (h.alloc.heap.huCall_quarantine (h.quarantine huaf).exact
      c lc i.ans i.call huaf h.alloc.inited hi.handled htakes)
    simp only [MallocConfig.kept, huaf, if_true] at hqueue ⊢
    simp only [QueueTrace.next, Session.gives]
    refine hstep.trans ?_
    cases τ.session.tool.mal.huActiveAllocs.lookup i.call.argument with
    | none =>
      rw [Option.toList_none, List.append_nil]
      exact hqueue
    | some b =>
      show trim _ _ (τ.session.tool.mal.huQuarantineAllocs ++ [b]) = _
      rw [hqueue, trim_append_trim]
      rfl

theorem next (h : AccessInv c τ) (hi : τ.session.Handles c i) : AccessInv c (τ.next c lc i) where
  alloc := h.alloc.next hi
  quarantine huaf := (h.quarantine huaf).next huaf ⟨hi.handled, hi.fits⟩
  queue := h.next_queue hi
  mine _ _ hk := h.next_mine hi hk

end AccessInv

/-! ## §3 Faults -/

/-- `x` is on the fence page of a block the program holds, or in the region of a
block it gave up that the quarantine has kept. -/
def QueueTrace.Guards (c : MallocConfig) (τ : QueueTrace) (x : Nat) : Prop :=
  (c.huOverflow = true ∧ ∃ p n, (p, n) ∈ τ.session.client ∧
    p ∈ τ.session.tool.mal.huActiveAllocs ∧ p + ceilTo n huSizeMultiple ≤ x ∧
    x < p + ceilTo n huSizeMultiple + c.huPageSize) ∨
  ∃ b ∈ c.kept τ.given, b.sysPtr ≤ x ∧ x < b.sysPtr + b.sysSize

/-- What the zone of an active block protects is its fence. -/
theorem HuAllocInfo.Shaped.activeZone_none_iff {c : MallocConfig} {b : HuAllocInfo} {x : Nat}
    (h : b.Shaped c) (hx : (activeZone c b).Covers x) :
    (activeZone c b).paint x = .none ↔ c.huOverflow = true ∧
      b.userPtr + ceilTo b.userSize huSizeMultiple ≤ x ∧
      x < b.userPtr + ceilTo b.userSize huSizeMultiple + c.huPageSize := by
  obtain ⟨hlo, hhi⟩ := hx
  simp only [activeZone] at hlo hhi ⊢
  cases hov : c.huOverflow with
  | true =>
    have hstop := h.userPtr_fenced hov
    have hfence : c.fence = c.huPageSize := if_pos hov
    split
    · simp
      omega
    · simp
      omega
  | false =>
    have hfence : c.fence = 0 := if_neg (by simp [hov])
    rw [if_pos (by omega)]
    simp

namespace AccessInv

variable {c : MallocConfig} {τ : QueueTrace} {x : Nat}

/-- **The protected addresses are the guarded ones.** -/
theorem faults_iff (h : AccessInv c τ) :
    τ.session.tool.sys.prot x = .none ↔ τ.Guards c x := by
  have hpainted := h.alloc.pages.painted
  constructor
  · intro hnone
    have hcovered : ∃ z ∈ τ.session.tool.mal.zones c, z.Covers x := by
      by_contra hfree
      have hopen := hpainted.outside x fun z hz hcov => hfree ⟨z, hz, hcov⟩
      rw [hnone] at hopen
      cases hopen
    obtain ⟨z, hz, hcov⟩ := hcovered
    rw [hpainted.inside z hz x hcov] at hnone
    rcases List.mem_append.mp hz with hz | hz
    · obtain ⟨b, hb, rfl⟩ := List.mem_map.mp hz
      obtain ⟨k, hk⟩ := mem_values.mp hb
      have hshaped : b.Shaped c := h.alloc.heap.owned_good b (List.mem_append_left _ hb)
      obtain ⟨hov, hlo, hhi⟩ := (hshaped.activeZone_none_iff hcov).mp hnone
      rw [h.alloc.heap.active_key k b hk] at hlo hhi
      exact .inl ⟨hov, k, b.userSize, h.mine k b hk, mem_of_lookup hk, hlo, hhi⟩
    · obtain ⟨b, hb, rfl⟩ := List.mem_map.mp hz
      rw [h.queue] at hb
      exact .inr ⟨b, hb, hcov⟩
  · rintro (⟨hov, p, n, hp, hact, hlo, hhi⟩ | ⟨b, hb, hcov⟩)
    · obtain ⟨b, hk⟩ := exists_lookup hact
      have hb : b ∈ values τ.session.tool.mal.huActiveAllocs := mem_values_of_lookup hk
      have hshaped : b.Shaped c := h.alloc.heap.owned_good b (List.mem_append_left _ hb)
      have hkey := h.alloc.heap.active_key p b hk
      have hsize := h.alloc.heap.fenced_size hp hk
      subst hkey hsize
      have hstop := hshaped.userPtr_fenced hov
      have hstart := hshaped.sysPtr_le
      have hcov : (activeZone c b).Covers x := ⟨by show b.sysPtr ≤ x; omega,
        by show x < b.sysPtr + b.sysSize; omega⟩
      rw [hpainted.inside _ (List.mem_append_left _ (List.mem_map_of_mem hb)) x hcov]
      exact (hshaped.activeZone_none_iff hcov).mpr ⟨hov, hlo, hhi⟩
    · rw [← h.queue] at hb
      exact hpainted.inside _ (List.mem_append_right _ (List.mem_map_of_mem hb)) x hcov

end AccessInv

/-- The runs: null or live pointers, and for `hu_free` any address that was ever
a fenced block; `mprotect` succeeds and fenced sizes do not wrap. -/
def QueueTrace.Protects (c : MallocConfig) (τ : QueueTrace) (i : AllocInput) : Prop :=
  τ.session.Handles c i

theorem AccessInv.of_run {c : MallocConfig} {lc : LogConfig} {l : LogState} {is : List AllocInput}
    (hrun : Along (QueueTrace.next c lc) (QueueTrace.Protects c) (.init l) is) :
    AccessInv c (exec (QueueTrace.next c lc) (.init l) is) := by
  have hstep : ∀ τ i, AccessInv c τ → τ.Protects c i → AccessInv c (τ.next c lc i) :=
    fun _ _ h hi => h.next hi
  exact Along.invariant hstep is _ (AccessInv.init c l) hrun

/-- What was given up in a run comes after what had been given up before. -/
theorem QueueTrace.given_exec (c : MallocConfig) (lc : LogConfig) (is : List AllocInput) :
    ∀ τ : QueueTrace, ∃ since, (exec (QueueTrace.next c lc) τ is).given = τ.given ++ since := by
  induction is with
  | nil => exact fun τ => ⟨[], (List.append_nil _).symm⟩
  | cons i is ih =>
    intro τ
    obtain ⟨since, hsince⟩ := ih (τ.next c lc i)
    refine ⟨τ.session.gives i.call ++ since, ?_⟩
    rw [exec_cons, hsince]
    exact List.append_assoc ..

/-- **Accesses through a dangling pointer are caught as long as the quarantine has
room**: a fenced block that was given up is still in the queue exactly if the
blocks given up since then, itself included, fit the limit, and until then every
access to its region faults. -/
theorem dangling_access_faults (c : MallocConfig) (lc : LogConfig) (l : LogState)
    (huaf : c.huUseafterfree = true) (is js : List AllocInput) (i : AllocInput)
    (hrun : Along (QueueTrace.next c lc) (QueueTrace.Protects c) (.init l) (is ++ i :: js))
    (n : Nat)
    (hp : (i.call.argument, n) ∈ (exec (QueueTrace.next c lc) (.init l) is).session.client)
    (hact : i.call.argument ∈
      (exec (QueueTrace.next c lc) (.init l) is).session.tool.mal.huActiveAllocs) :
    let τ := exec (QueueTrace.next c lc) (.init l) (is ++ i :: js)
    ∃ b since, b.userPtr = i.call.argument ∧ b.userSize = n ∧
      τ.given = (exec (QueueTrace.next c lc) (.init l) is).given ++ b :: since ∧
      (b :: since <:+ τ.session.tool.mal.huQuarantineAllocs ↔
        total HuAllocInfo.sysSize (b :: since) ≤ c.huQuarantineMaxSize) ∧
      (total HuAllocInfo.sysSize (b :: since) ≤ c.huQuarantineMaxSize →
        ∀ x, b.sysPtr ≤ x → x < b.sysPtr + b.sysSize → τ.session.tool.sys.prot x = .none) ∧
      b.sysPtr ≤ b.userPtr ∧ b.userPtr + n ≤ b.sysPtr + b.sysSize := by
  intro τ
  have hbefore : AccessInv c (exec (QueueTrace.next c lc) (.init l) is) :=
    AccessInv.of_run ((along_append is (i :: js) _).mp hrun).1
  have hafter : AccessInv c τ := AccessInv.of_run hrun
  obtain ⟨b, hb⟩ := exists_lookup hact
  have hshaped : b.Shaped c := hbefore.alloc.heap.owned_good b (MallocState.active_owned hb)
  have hkey := hbefore.alloc.heap.active_key _ b hb
  have hsize := hbefore.alloc.heap.fenced_size hp hb
  obtain ⟨since, hsince⟩ :=
    QueueTrace.given_exec c lc js ((exec (QueueTrace.next c lc) (.init l) is).next c lc i)
  have hgiven : τ.given =
      (exec (QueueTrace.next c lc) (.init l) is).given ++ b :: since := by
    show (exec (QueueTrace.next c lc) (.init l) (is ++ i :: js)).given = _
    rw [exec_append, exec_cons, hsince]
    simp only [QueueTrace.next, Session.gives, hb, Option.toList_some]
    rw [List.append_assoc]
    rfl
  have hqueue : τ.session.tool.mal.huQuarantineAllocs =
      trim HuAllocInfo.sysSize c.huQuarantineMaxSize τ.given := by
    rw [hafter.queue]
    exact if_pos huaf
  have hstays : b :: since <:+ τ.session.tool.mal.huQuarantineAllocs ↔
      total HuAllocInfo.sysSize (b :: since) ≤ c.huQuarantineMaxSize := by
    rw [hqueue]
    exact suffix_trim_iff ⟨_, hgiven.symm⟩
  refine ⟨b, since, hkey, hsize, hgiven, hstays, fun hroom x hlo hhi => ?_, hshaped.sysPtr_le, ?_⟩
  · refine hafter.faults_iff.mpr (.inr ⟨b, ?_, hlo, hhi⟩)
    rw [← hafter.queue]
    exact (hstays.mpr hroom).subset List.mem_cons_self
  · have hround := le_ceilTo b.userSize huSizeMultiple
    have hle := hshaped.rounded_le
    omega

/-- A block is given up, then another: both regions, of a page each, fit two pages. -/
theorem dangling_access_faults_two_pages :
    let c := { (HuConfig.tools false false true 0).mallocConfig with huQuarantineMaxSize := 8192 }
    let lc := (HuConfig.tools false false true 0).logConfig
    (exec (QueueTrace.next c lc) (.init logInit)
      [⟨.malloc 8, (CallEnv.answering 8192).ans⟩, ⟨.malloc 8, (CallEnv.answering 16384).ans⟩,
        ⟨.free 8192, (CallEnv.answering 0).ans⟩,
        ⟨.free 16384, (CallEnv.answering 0).ans⟩]).session.tool.sys.prot 8195 = .none := by
  intro c lc
  obtain ⟨b, since, hptr, hsize, hgiven, -, hfaults, -⟩ := dangling_access_faults c lc logInit rfl
    [⟨.malloc 8, (CallEnv.answering 8192).ans⟩, ⟨.malloc 8, (CallEnv.answering 16384).ans⟩]
    [⟨.free 16384, (CallEnv.answering 0).ans⟩] ⟨.free 8192, (CallEnv.answering 0).ans⟩
    ⟨⟨.inl rfl, fun _ _ => by decide, fun _ _ _ => rfl⟩,
      ⟨.inl rfl, fun _ _ => by decide, fun _ _ _ => rfl⟩,
      ⟨.inr (.inl (by decide)), fun h => absurd h (by decide), fun _ _ _ => rfl⟩,
      ⟨.inr (.inl (by decide)), fun h => absurd h (by decide), fun _ _ _ => rfl⟩, trivial⟩
    8 (by decide) (by decide)
  have hnone : (exec (QueueTrace.next c lc) (.init logInit)
      [⟨.malloc 8, (CallEnv.answering 8192).ans⟩,
        ⟨.malloc 8, (CallEnv.answering 16384).ans⟩]).given = [] := by decide
  rw [hnone, List.nil_append] at hgiven
  have hblocks : b :: since = [⟨8192, 8, 8192, 4096⟩, ⟨16384, 8, 16384, 4096⟩] :=
    hgiven.symm.trans (by decide)
  cases hblocks
  exact hfaults (by decide) 8195 (by decide) (by decide)

end Heapusage
