/-
Heapusage.Client.Tracking — the tables of the log against the heap the program
sees, over whole runs of the wrappers.

§1 Mirror  — `allocations` lists exactly the program's blocks of positive size
             not below the minimum; one lemma per kind of event.
§2 Session — the invariant of a run: the ownership invariant of the two
             allocators and the mirror (`SessionInv.next`).
§3 The tracking table of a run without failures (`allocations_mirror_client`).
§4 Double-free reports: the address of a freed record is handed out again
             without an allocation event, and a failed `realloc` moves a live
             block to the freed ones (`false_double_free_report`); apart from
             those cases no run makes a report (`no_false_double_free`).
-/
import Heapusage.Client.HeapInvariant
import Heapusage.Lib.Run
import Heapusage.Main.HuMainTheorems

namespace Heapusage

open Arenas Runs Tables

/-! ## §1 Mirror -/

/-- `allocations` holds exactly the blocks of `L` with a positive size of at
least `min`. -/
def Mirrors (min : Nat) (l : LogState) (L : ClientHeap) : Prop :=
  ∀ p n, l.sizeAt p = some n ↔ (p, n) ∈ L ∧ 0 < n ∧ min ≤ n

namespace Mirrors

variable {c : LogConfig} {l l' : LogState} {L : ClientHeap}

theorem of_sizeAt {min : Nat} (h : Mirrors min l L) (hsize : ∀ p, l'.sizeAt p = l.sizeAt p) :
    Mirrors min l' L := by
  intro p n
  rw [hsize]
  exact h p n

/-- A pointer the program does not hold is not listed. -/
theorem not_listed {min : Nat} (h : Mirrors min l L) {p : Nat} (hp : p ∉ L.ptrs) :
    p ∉ l.allocations := by
  rw [← LogState.sizeAt_eq_none]
  cases hs : l.sizeAt p with
  | none => rfl
  | some n => exact absurd (List.mem_map.mpr ⟨(p, n), ((h p n).mp hs).1, rfl⟩) hp

/-- The free event of a block. -/
theorem drop (h : Mirrors c.huLogMinleak l L) (hnd : L.ptrs.Nodup) (q : Nat) (cs : Callstack) :
    Mirrors c.huLogMinleak (logFree c q cs l) (L.drop q) := by
  intro p n
  rw [logFree_sizeAt, ClientHeap.mem_drop hnd]
  by_cases hp : p = q
  · simp [hp]
  · rw [if_neg hp, h p n]
    constructor
    · intro hboth
      obtain ⟨h1, h2⟩ := hboth
      exact ⟨⟨h1, hp⟩, h2⟩
    · intro hboth
      obtain ⟨⟨h1, -⟩, h2⟩ := hboth
      exact ⟨h1, h2⟩

/-- The allocation event of a block. -/
theorem receive (h : Mirrors c.huLogMinleak l L) {q n : Nat} (hq : q ≠ 0) (hfresh : q ∉ L.ptrs)
    (hn : 0 < n) (cs : Callstack) :
    Mirrors c.huLogMinleak (logMalloc c q n cs l) (L.receive q n) := by
  intro p m
  have hnone : ∀ k, (q, k) ∉ L := fun k hk => hfresh (List.mem_map.mpr ⟨(q, k), hk, rfl⟩)
  rw [logMalloc_sizeAt, ClientHeap.receive, if_neg hq, List.mem_cons]
  by_cases hp : p = q
  · subst hp
    by_cases hmin : c.huLogMinleak ≤ n
    · rw [if_pos ⟨hmin, rfl⟩]
      constructor
      · intro heq
        cases heq
        exact ⟨.inl rfl, hn, hmin⟩
      · intro hboth
        obtain ⟨heq | hmem, -⟩ := hboth
        · cases heq
          rfl
        · exact absurd hmem (hnone m)
    · rw [if_neg (fun hc => hmin hc.1), h p m]
      constructor
      · intro hboth
        obtain ⟨hmem, -⟩ := hboth
        exact absurd hmem (hnone m)
      · intro hboth
        obtain ⟨heq | hmem, -, hm⟩ := hboth
        · cases heq
          exact absurd hm hmin
        · exact absurd hmem (hnone m)
  · rw [if_neg (fun hc => hp hc.2), h p m]
    constructor
    · intro hboth
      obtain ⟨hmem, hrest⟩ := hboth
      exact ⟨.inr hmem, hrest⟩
    · intro hboth
      obtain ⟨heq | hmem, hrest⟩ := hboth
      · cases heq
        exact absurd rfl hp
      · exact ⟨hmem, hrest⟩

/-- A block of size zero is not tracked. -/
theorem receive_zero {min : Nat} (h : Mirrors min l L) (q : Nat) :
    Mirrors min l (L.receive q 0) := by
  intro p m
  rw [h p m, ClientHeap.receive]
  split
  · rfl
  · rw [List.mem_cons]
    constructor
    · intro hboth
      obtain ⟨hmem, hrest⟩ := hboth
      exact ⟨.inr hmem, hrest⟩
    · intro hboth
      obtain ⟨heq | hmem, hm, hrest⟩ := hboth
      · cases heq
        exact absurd hm (by omega)
      · exact ⟨hmem, hm, hrest⟩

/-! ### The events of a call -/

variable {e : CallEnv} {q : Nat} {call : Call}

/-- A call that failed without a trace. -/
theorem failed (h : Mirrors c.huLogMinleak l L) (hlog : l.loggingEnabled = true)
    (hsmall : call.logged < c.huLogMinleak) (hquiet : call.argument ∉ l.allocations) :
    Mirrors c.huLogMinleak (logEvents c e q call l) L := by
  have hlog₂ : (freeEvent c e call l).loggingEnabled = true := by rw [freeEvent_enabled, hlog]
  refine h.of_sizeAt fun p => ?_
  have hfree : (freeEvent c e call l).sizeAt p = l.sizeAt p := by
    cases hfr : call.frees with
    | none => rw [freeEvent_of_none _ _ _ _ hfr]
    | some ptr =>
      rw [freeEvent_of_some _ _ _ _ hfr hlog, logFree_sizeAt]
      split
      · rename_i hp
        rw [Call.frees_eq_some hfr, ← hp] at hquiet
        exact (LogState.sizeAt_eq_none.mpr hquiet).symm
      · rfl
  rw [logEvents]
  cases hal : call.allocs with
  | none => rw [allocEvent_of_none _ _ _ _ _ hal, hfree]
  | some size =>
    have hlt : ¬ c.huLogMinleak ≤ size := by
      rw [Call.logged, hal] at hsmall
      simpa using hsmall
    rw [allocEvent_of_some _ _ _ _ _ hal hlog₂, logMalloc_sizeAt, if_neg (fun h => hlt h.1),
      hfree]

/-- The argument of a call is given up. -/
theorem given (h : Mirrors c.huLogMinleak l L) (hlog : l.loggingEnabled = true)
    (hnd : L.ptrs.Nodup) (h0 : 0 ∉ L.ptrs) :
    Mirrors c.huLogMinleak (freeEvent c e call l) (L.drop call.argument) := by
  cases hfr : call.frees with
  | none =>
    rw [freeEvent_of_none _ _ _ _ hfr, Call.frees_eq_none hfr, ClientHeap.drop_of_not_mem h0]
    exact h
  | some ptr =>
    rw [freeEvent_of_some _ _ _ _ hfr hlog, Call.frees_eq_some hfr]
    exact h.drop hnd ptr e.freeStack

/-- A call that did not fail. -/
theorem events (h : Mirrors c.huLogMinleak l L) (hlog : l.loggingEnabled = true)
    (hnd : L.ptrs.Nodup) (h0 : 0 ∉ L.ptrs) (hok : ¬ call.Failed q)
    (hsize : q ≠ 0 → call.allocs = if 0 < call.requested then some call.requested else none)
    (hnd' : ((L.drop call.argument).receive q call.requested).ptrs.Nodup) :
    Mirrors c.huLogMinleak (logEvents c e q call l)
      ((L.drop call.argument).receive q call.requested) := by
  have hlog₂ : (freeEvent c e call l).loggingEnabled = true := by rw [freeEvent_enabled, hlog]
  have hfree : Mirrors c.huLogMinleak (freeEvent c e call l) (L.drop call.argument) :=
    h.given hlog hnd h0
  rw [logEvents]
  by_cases hreq : call.requested = 0
  · rw [allocEvent_of_none _ _ _ _ _ (Call.allocs_eq_none.mpr hreq), hreq]
    exact hfree.receive_zero q
  · have hq0 : q ≠ 0 := fun h => hok ⟨hreq, h⟩
    have hal := hsize hq0
    rw [if_pos (Nat.pos_of_ne_zero hreq)] at hal
    rw [allocEvent_of_some _ _ _ _ _ hal hlog₂]
    exact hfree.receive hq0 (ClientHeap.receive_fresh hnd' hq0) (Nat.pos_of_ne_zero hreq)
      e.allocStack

end Mirrors

/-! ## §2 Session -/

/-- The allocator half keeps the containers empty where the fenced allocator
is off, and the log going. -/
structure HuState.Configured (c : HuConfig) (s : HuState) : Prop where
  inited : s.mal.huMallocInited = c.huEnableHumalloc
  plain : c.huEnableHumalloc = false → s.mal.huActiveAllocs = ∅
  logging : s.log.loggingEnabled = true

/-- The invariant of a run. -/
structure SessionInv (c : HuConfig) (σ : Session) : Prop where
  configured : σ.tool.Configured c
  heap : HeapInv (.placed c.mallocConfig) σ.tool σ.client
  mirror : Mirrors c.huMinsize σ.tool.log σ.client

/-- A fenced request lands in its region. -/
def Call.Lands (c : HuConfig) (call : Call) : Prop :=
  c.huEnableHumalloc = true → 0 < call.requested → c.huMinsize ≤ call.requested →
    c.mallocConfig.Placed call.requested

instance (c : HuConfig) (call : Call) : Decidable (call.Lands c) :=
  inferInstanceAs (Decidable (_ → _))

/-- A call that fails without a trace: below the minimum size, and not the
`realloc` of a tracked block. -/
def Call.FailsQuietly (c : HuConfig) (l : LogState) (call : Call) : Prop :=
  call.logged < c.huMinsize ∧ call.argument ∉ l.allocations

instance (c : HuConfig) (l : LogState) (call : Call) : Decidable (call.FailsQuietly c l) :=
  inferInstanceAs (Decidable (_ ∧ _))

/-- The steps that keep the invariant. -/
structure Session.Sound (c : HuConfig) (σ : Session) (i : Input) : Prop where
  permitted : i.call.Permitted σ.client
  lands : i.call.Lands c
  failed : i.call.Failed (σ.result c i).2 → i.call.FailsQuietly c σ.tool.log

namespace SessionInv

variable {c : HuConfig} {σ : Session} {i : Input}

theorem init (c : HuConfig) : SessionInv c (.init c) := by
  refine ⟨⟨huInit_inited c, fun _ => huInit_active c, rfl⟩,
    HeapInv.of_empty (huInit_active c) (huInit_queue c), ?_⟩
  intro p n
  simp [Session.init, huInit, logEnable, logInit, LogState.sizeAt]

/-- The program holds a fenced block it passes on under its size. -/
theorem tracked_of_active (hinv : SessionInv c σ) {call : Call}
    (hperm : call.Permitted σ.client) (h0 : call.argument ≠ 0)
    (hact : call.argument ∈ σ.tool.mal.huActiveAllocs) :
    call.argument ∈ σ.tool.log.allocations := by
  obtain ⟨b, hb⟩ := exists_lookup hact
  obtain ⟨⟨p, n⟩, hp, hpa⟩ := List.mem_map.mp (hperm.resolve_left h0)
  simp only at hpa
  subst hpa
  have hsize := hinv.heap.fenced_size hp hb
  obtain ⟨-, hpos, hmin⟩ := hinv.heap.owned_good b (MallocState.active_owned hb)
  rw [hsize] at hpos hmin
  have hlisted := (hinv.mirror call.argument n).mpr ⟨hp, hpos, hmin⟩
  by_contra hnot
  rw [LogState.sizeAt_eq_none.mpr hnot] at hlisted
  exact absurd hlisted (by simp)

end SessionInv

/-- The allocator half keeps the ownership invariant, both allocators. -/
theorem HeapInv.allocHalf_keeps {Λ : Layout} {c : HuConfig} {s : HuState} {L : ClientHeap}
    (hi : HeapInv Λ s L) (hc : s.Configured c) (ans : SysAns) (call : Call)
    (hperm : call.Permitted L)
    (htakes : c.huEnableHumalloc = true → 0 < call.requested →
      c.mallocConfig.huMinsize ≤ call.requested → Λ.Takes c.mallocConfig call.requested) :
    HeapInv Λ (allocHalf c ans call s).1
      (call.after (s.keeps call) (allocHalf c ans call s).2 L) := by
  unfold allocHalf
  cases hon : c.huEnableHumalloc with
  | true =>
    have hinit : s.mal.huMallocInited = true := by rw [hc.inited, hon]
    exact hi.huCall_keeps _ _ ans call hinit hperm.handled (htakes hon)
  | false =>
    have hact : call.argument ∉ s.mal.huActiveAllocs := by
      rw [hc.plain hon]
      exact AList.notMem_empty _
    have hkeeps : s.keeps call = true := by
      rw [HuState.keeps, AList.lookup_eq_none.mpr hact]
      rfl
    rw [hkeeps]
    exact hi.libcCall_keeps ans call hperm hact

theorem HuState.Configured.next {c : HuConfig} {s : HuState} (h : s.Configured c) (e : CallEnv)
    (call : Call) : (wrapper c e .fresh call s).1.Configured c := by
  rw [tracked_eq]
  refine ⟨?_, ?_, ?_⟩
  · rw [logHalf_mal, allocHalf_inited, h.inited]
  · intro hoff
    rw [logHalf_mal, allocHalf, if_neg (by rw [hoff]; exact Bool.false_ne_true), libcCall_mal]
    exact h.plain hoff
  · rw [logHalf_log, logEvents, allocEvent_enabled, freeEvent_enabled,
      (allocHalf_log c e.ans call s).enabled, h.logging]

theorem Session.result_eq (c : HuConfig) (σ : Session) (i : Input) :
    (σ.result c i).2 = (allocHalf c i.env.ans i.call σ.tool).2 := by
  rw [Session.result, tracked_eq]

theorem Session.next_log (c : HuConfig) (σ : Session) (i : Input) :
    (σ.next c i).tool.log = logEvents c.logConfig i.env (σ.result c i).2 i.call
      (allocHalf c i.env.ans i.call σ.tool).1.log := by
  rw [Session.result_eq]
  simp only [Session.next, Session.result, tracked_eq, logHalf_log]

theorem Session.result_free (c : HuConfig) (σ : Session) (i : Input) (ptr : Nat)
    (h : i.call = .free ptr) : (σ.result c i).2 = 0 := by
  rw [Session.result_eq, h]
  unfold allocHalf
  split <;> rfl

namespace SessionInv

variable {c : HuConfig} {σ : Session} {i : Input}

/-- A call that is not a failed `realloc` of a fenced block is one in which a
failure keeps the block. -/
theorem after_keeps (hinv : SessionInv c σ) (hs : σ.Sound c i) :
    i.call.after (σ.tool.keeps i.call) (σ.result c i).2 σ.client =
      i.call.after true (σ.result c i).2 σ.client := by
  by_cases hf : i.call.Failed (σ.result c i).2
  · have hquiet := (hs.failed hf).2
    have hkeeps : i.call.argument = 0 ∨ σ.tool.keeps i.call = true := by
      by_cases h0 : i.call.argument = 0
      · exact .inl h0
      · refine .inr ?_
        have hact : i.call.argument ∉ σ.tool.mal.huActiveAllocs :=
          fun hmem => hquiet (hinv.tracked_of_active hs.permitted h0 hmem)
        rw [HuState.keeps, AList.lookup_eq_none.mpr hact]
        rfl
    rcases hkeeps with h0 | hk
    · cases hcall : i.call with
      | realloc ptr size =>
        rw [hcall] at h0
        simp only [Call.argument] at h0
        simp only [Call.after, h0, if_true]
      | malloc size => rfl
      | free ptr => rfl
      | calloc nmemb size => rfl
    · rw [hk]
  · have h0 := hinv.heap.null_not_held
    rw [Call.after_eq _ h0 (Session.result_free c σ i) hf,
      Call.after_eq _ h0 (Session.result_free c σ i) hf]

/-- The ownership invariant after a step, for any layout the request gives. -/
theorem next_heap_of {Λ : Layout} (hinv : SessionInv c σ) (hheap : HeapInv Λ σ.tool σ.client)
    (hs : σ.Sound c i)
    (htakes : c.huEnableHumalloc = true → 0 < i.call.requested →
      c.mallocConfig.huMinsize ≤ i.call.requested → Λ.Takes c.mallocConfig i.call.requested) :
    HeapInv Λ (σ.next c i).tool (σ.next c i).client := by
  have hhalf := hheap.allocHalf_keeps hinv.configured i.env.ans i.call hs.permitted htakes
  rw [← Session.result_eq, hinv.after_keeps hs] at hhalf
  refine hhalf.congr ?_ ?_ ?_ ?_ <;>
    simp only [Session.next, Session.result, tracked_eq, logHalf_mal, logHalf_sys]

theorem next_heap (hinv : SessionInv c σ) (hs : σ.Sound c i) :
    HeapInv (.placed c.mallocConfig) (σ.next c i).tool (σ.next c i).client :=
  hinv.next_heap_of hinv.heap hs fun hon hpos hmin => (hs.lands hon hpos hmin).takes hpos hmin

/-- The mirror after a step. -/
theorem next_mirror (hinv : SessionInv c σ) (hs : σ.Sound c i) :
    Mirrors c.huMinsize (σ.next c i).tool.log (σ.next c i).client := by
  have hev := allocHalf_log c i.env.ans i.call σ.tool
  have hlog : (allocHalf c i.env.ans i.call σ.tool).1.log.loggingEnabled = true := by
    rw [hev.enabled, hinv.configured.logging]
  have hmirror : Mirrors c.logConfig.huLogMinleak (allocHalf c i.env.ans i.call σ.tool).1.log
      σ.client := hinv.mirror.of_sizeAt hev.sizeAt
  have h0 := hinv.heap.null_not_held
  have hnd := (hinv.next_heap hs).client_nodup
  have hnext : (σ.next c i).client = i.call.after true (σ.result c i).2 σ.client := rfl
  rw [hnext] at hnd
  rw [Session.next_log, hnext]
  by_cases hf : i.call.Failed (σ.result c i).2
  · obtain ⟨hsmall, hquiet⟩ := hs.failed hf
    rw [Call.after_failed hf]
    exact hmirror.failed hlog hsmall (by rwa [hev.allocations])
  · rw [Call.after_eq true h0 (Session.result_free c σ i) hf] at hnd ⊢
    refine hmirror.events hlog hinv.heap.client_nodup h0 hf (fun hq => ?_) hnd
    refine Call.allocs_eq fun nmemb size hcall => ?_
    rw [Session.result_eq, hcall] at hq
    exact allocHalf_calloc_fits c i.env.ans σ.tool hq

/-- A request fails exactly if the system refuses it. -/
theorem failed_iff (hinv : SessionInv c σ) (hperm : i.call.Permitted σ.client)
    (hlands : i.call.Lands c) :
    i.call.Failed (σ.result c i).2 ↔ i.call.Refused c i.env.ans σ.tool := by
  rw [Session.result_eq]
  refine allocHalf_failed_iff (fun hfences => ?_) fun hcopy => ?_
  · obtain ⟨hon, -, hne, hmin⟩ := hfences
    exact hlands hon (Nat.pos_of_ne_zero hne) hmin
  · have hheld : i.call.argument ∈ σ.client.ptrs := hperm.resolve_left fun h0 => hcopy (.inl h0)
    have hact : i.call.argument ∉ σ.tool.mal.huActiveAllocs := by
      intro hmem
      cases hon : c.huEnableHumalloc with
      | true => exact hcopy (.inr ⟨hon, by rw [hinv.configured.inited, hon], hmem⟩)
      | false =>
        rw [hinv.configured.plain hon] at hmem
        exact AList.notMem_empty _ hmem
    obtain ⟨n, -, hlive⟩ := hinv.heap.passed_through hheld (AList.lookup_eq_none.mpr hact)
    exact ⟨_, σ.tool.sys.arena.find_eq_some hlive⟩

/-- **One sound step keeps the invariant.** -/
theorem next (hinv : SessionInv c σ) (hs : σ.Sound c i) : SessionInv c (σ.next c i) :=
  ⟨hinv.configured.next i.env i.call, hinv.next_heap hs, hinv.next_mirror hs⟩

end SessionInv

/-! ## §3 The tracking table -/

/-- A step of a program that passes on null or a block it holds, in which the
allocation succeeds and the fenced size does not wrap. -/
structure Session.Clean (c : HuConfig) (σ : Session) (i : Input) : Prop where
  permitted : i.call.Permitted σ.client
  succeeds : ¬ i.call.Failed (σ.result c i).2
  fits : c.huEnableHumalloc = true → 0 < i.call.requested → c.huMinsize ≤ i.call.requested →
    c.mallocConfig.Fits i.call.requested

instance (c : HuConfig) (σ : Session) (i : Input) : Decidable (σ.Clean c i) :=
  decidable_of_iff
    (i.call.Permitted σ.client ∧ ¬ i.call.Failed (σ.result c i).2 ∧
      (c.huEnableHumalloc = true → 0 < i.call.requested → c.huMinsize ≤ i.call.requested →
        c.mallocConfig.Fits i.call.requested))
    ⟨fun ⟨h1, h2, h3⟩ => ⟨h1, h2, h3⟩, fun h => ⟨h.1, h.2, h.3⟩⟩

theorem Session.Clean.sound {c : HuConfig} {σ : Session} {i : Input} (h : σ.Clean c i) :
    σ.Sound c i :=
  ⟨h.permitted, fun hon hpos hmin => (h.fits hon hpos hmin).placed, fun hf => absurd hf h.succeeds⟩

/-- Such a step as the environment sees it: the system grants the request. -/
structure Session.Granted (c : HuConfig) (σ : Session) (i : Input) : Prop where
  permitted : i.call.Permitted σ.client
  granted : ¬ i.call.Refused c i.env.ans σ.tool
  fits : c.huEnableHumalloc = true → 0 < i.call.requested → c.huMinsize ≤ i.call.requested →
    c.mallocConfig.Fits i.call.requested

instance (c : HuConfig) (σ : Session) (i : Input) : Decidable (σ.Granted c i) :=
  decidable_of_iff
    (i.call.Permitted σ.client ∧ ¬ i.call.Refused c i.env.ans σ.tool ∧
      (c.huEnableHumalloc = true → 0 < i.call.requested → c.huMinsize ≤ i.call.requested →
        c.mallocConfig.Fits i.call.requested))
    ⟨fun ⟨h1, h2, h3⟩ => ⟨h1, h2, h3⟩, fun h => ⟨h.1, h.2, h.3⟩⟩

/-- The two are the same between the calls of a run. -/
theorem SessionInv.granted_iff_clean {c : HuConfig} {σ : Session} {i : Input}
    (hinv : SessionInv c σ) : σ.Granted c i ↔ σ.Clean c i := by
  have hfailed : i.call.Permitted σ.client →
      (c.huEnableHumalloc = true → 0 < i.call.requested → c.huMinsize ≤ i.call.requested →
        c.mallocConfig.Fits i.call.requested) →
      (i.call.Failed (σ.result c i).2 ↔ i.call.Refused c i.env.ans σ.tool) :=
    fun hperm hfits => hinv.failed_iff hperm fun hon hpos hmin => (hfits hon hpos hmin).placed
  constructor
  · intro h
    exact ⟨h.permitted, fun hf => h.granted ((hfailed h.permitted h.fits).mp hf), h.fits⟩
  · intro h
    exact ⟨h.permitted, fun hr => h.succeeds ((hfailed h.permitted h.fits).mpr hr), h.fits⟩

/-- **`allocations` mirrors the program's live heap** in every state of every run
on null or held blocks in which the system grants every request: a pointer is listed
under a size exactly if it is live with this last requested size and the size is
positive and not below the minimum. -/
theorem allocations_mirror_client (c : HuConfig) (is : List Input)
    (hrun : Along (Session.next c) (Session.Granted c) (.init c) is) (p n : Nat) :
    ((exec (Session.next c) (.init c) is).tool.log.allocations.lookup p).map
        HuAllocinfoT.size = some n ↔
      (p, n) ∈ (exec (Session.next c) (.init c) is).client ∧ 0 < n ∧ c.huMinsize ≤ n :=
  have hstep : ∀ σ i, SessionInv c σ → σ.Granted c i → SessionInv c (σ.next c i) :=
    fun _ _ hinv h => hinv.next (hinv.granted_iff_clean.mp h).sound
  (Along.invariant hstep is _ (SessionInv.init c) hrun).mirror p n

/-- A fenced block is moved by `realloc`, and a block below the minimum comes
and goes. -/
theorem allocations_mirror_client_moved :
    let c := HuConfig.tools true true true 8
    let is : List Input := [⟨.malloc 8, .answering 8192⟩, ⟨.malloc 4, .answering 64⟩,
      ⟨.realloc 12272 100, .answering 16384⟩, ⟨.free 64, .answering 0⟩]
    ((exec (Session.next c) (.init c) is).tool.log.allocations.lookup 20368).map
      HuAllocinfoT.size = some 100 := by
  intro c is
  exact (allocations_mirror_client c is (by decide) 20368 100).mpr (by decide)

/-! ## §4 Double-free reports -/

/-- No block the program may free has a freed record, and no report was made. -/
structure FreedApart (l : LogState) (L : ClientHeap) : Prop where
  apart : ∀ p ∈ L.ptrs, p ∉ l.freedAllocations
  null : 0 ∉ l.freedAllocations
  count : l.totalInvalidDeallocCount = 0
  returned : l.uncaught = false

namespace FreedApart

variable {c : LogConfig} {l l' : LogState} {L : ClientHeap}

theorem evicted (h : FreedApart l L) (hev : l.Evicted l') : FreedApart l' L where
  apart p hp := hev.not_mem (h.apart p hp)
  null := hev.not_mem h.null
  count := by rw [hev.invalidCount, h.count]
  returned := by rw [hev.uncaught, h.returned]

/-- The free event of an argument that is not listed changes no record. -/
theorem unlisted (h : FreedApart l L) {p : Nat} (hp : p = 0 ∨ p ∈ L.ptrs)
    (hnot : p ∉ l.allocations) (cs : Callstack) : FreedApart (logFree c p cs l) L := by
  have hfreed : p ∉ l.freedAllocations := by
    rcases hp with rfl | hp
    · exact h.null
    · exact h.apart p hp
  rw [logFree_unlisted c p cs l hnot hfreed h.returned]
  exact ⟨h.apart, h.null, h.count, h.returned⟩

/-- The free event of a block the program gives up. -/
theorem drop (h : FreedApart l L) (hnd : L.ptrs.Nodup) (h0 : 0 ∉ l.allocations) {p : Nat}
    (hp : p = 0 ∨ p ∈ L.ptrs) (cs : Callstack) : FreedApart (logFree c p cs l) (L.drop p) := by
  have hsub : ∀ q ∈ (L.drop p).ptrs, q ∈ L.ptrs ∧ q ≠ p := by
    intro q hq
    obtain ⟨⟨q', n⟩, hmem, rfl⟩ := List.mem_map.mp hq
    obtain ⟨hmem, hne⟩ := (ClientHeap.mem_drop hnd).mp hmem
    exact ⟨List.mem_map.mpr ⟨_, hmem, rfl⟩, hne⟩
  cases hlook : l.allocations.lookup p with
  | none =>
    have hun := h.unlisted (c := c) hp (not_mem_of_lookup_none hlook) cs
    exact ⟨fun q hq => hun.apart q (hsub q hq).1, hun.null, hun.count, hun.returned⟩
  | some info =>
    rw [logFree_listed c p cs l hlook h.returned]
    refine ⟨?_, ?_, h.count, h.returned⟩
    · intro q hq
      obtain ⟨hmem, hne⟩ := hsub q hq
      simp only
      split
      · rw [mem_insertNew]
        rintro (heq | hin)
        · exact hne heq
        · exact h.apart q hmem hin
      · exact h.apart q hmem
    · have hp0 : p ≠ 0 := by
        rintro rfl
        exact h0 (mem_of_lookup hlook)
      simp only
      split
      · rw [mem_insertNew]
        rintro (heq | hin)
        · exact hp0 heq.symm
        · exact h.null hin
      · exact h.null

/-- The allocation event takes the record of the address away. -/
theorem receive (h : FreedApart l L) (hkeep : c.keepsFreed = true) (q n m : Nat)
    (cs : Callstack) : FreedApart (logMalloc c q n cs l) (L.receive q m) := by
  refine ⟨?_, ?_, ?_, ?_⟩
  · intro p hp
    rw [logMalloc_freed, if_pos hkeep, AList.mem_erase]
    intro hboth
    obtain ⟨hne, hin⟩ := hboth
    rw [ClientHeap.receive] at hp
    split at hp
    · exact h.apart p hp hin
    · rcases List.mem_cons.mp hp with rfl | hp
      · exact hne rfl
      · exact h.apart p hp hin
  · rw [logMalloc_freed, if_pos hkeep, AList.mem_erase]
    exact fun hin => h.null hin.2
  · rw [logMalloc_invalidCount, h.count]
  · rw [logMalloc_uncaught, h.returned]

/-- A block without an allocation event must not be at a freed record. -/
theorem receive_untracked (h : FreedApart l L) {q n : Nat}
    (hq : q = 0 ∨ q ∉ l.freedAllocations) : FreedApart l (L.receive q n) := by
  refine ⟨?_, h.null, h.count, h.returned⟩
  intro p hp
  rw [ClientHeap.receive] at hp
  split at hp
  · exact h.apart p hp
  · rename_i hq0
    rcases List.mem_cons.mp hp with rfl | hp
    · exact hq.resolve_left hq0
    · exact h.apart p hp

/-! ### The events of a call -/

variable {e : CallEnv} {q : Nat} {call : Call}

/-- A call that asks for bytes clears the record of its result. -/
theorem allocated (h : FreedApart l L) (hkeep : c.keepsFreed = true)
    (hlog : l.loggingEnabled = true) {size : Nat} (hal : call.allocs = some size) (m : Nat) :
    FreedApart (allocEvent c e q call l) (L.receive q m) := by
  rw [allocEvent_of_some _ _ _ _ _ hal hlog]
  exact h.receive hkeep q size m e.allocStack

/-- A call that failed without a trace. -/
theorem failed (h : FreedApart l L) (hkeep : c.keepsFreed = true)
    (hlog : l.loggingEnabled = true) (hperm : call.Permitted L)
    (hquiet : call.argument ∉ l.allocations) (hf : call.Failed q) :
    FreedApart (logEvents c e q call l) L := by
  have hfree : FreedApart (freeEvent c e call l) L := by
    cases hfr : call.frees with
    | none => rwa [freeEvent_of_none _ _ _ _ hfr]
    | some ptr =>
      rw [freeEvent_of_some _ _ _ _ hfr hlog, ← Call.frees_eq_some hfr]
      exact h.unlisted hperm hquiet e.freeStack
  have hdone := hfree.allocated (e := e) (q := q) hkeep (by rw [freeEvent_enabled, hlog])
    hf.allocs 0
  rwa [ClientHeap.receive, if_pos hf.2] at hdone

/-- The argument of a call is given up. -/
theorem given (h : FreedApart l L) (hlog : l.loggingEnabled = true) (hnd : L.ptrs.Nodup)
    (hnull : 0 ∉ L.ptrs) (h0 : 0 ∉ l.allocations) (hperm : call.Permitted L) :
    FreedApart (freeEvent c e call l) (L.drop call.argument) := by
  cases hfr : call.frees with
  | none =>
    rwa [freeEvent_of_none _ _ _ _ hfr, Call.frees_eq_none hfr, ClientHeap.drop_of_not_mem hnull]
  | some ptr =>
    rw [freeEvent_of_some _ _ _ _ hfr hlog, ← Call.frees_eq_some hfr]
    exact h.drop hnd h0 hperm e.freeStack

end FreedApart

/-- A request for zero bytes. -/
def Call.ZeroSized : Call → Prop
  | .malloc size => size = 0
  | .free _ => False
  | .calloc nmemb size => nmemb * size = 0
  | .realloc ptr size => ptr = 0 ∧ size = 0

instance : ∀ call : Call, Decidable call.ZeroSized
  | .malloc _ => inferInstanceAs (Decidable (_ = _))
  | .free _ => inferInstanceAs (Decidable False)
  | .calloc _ _ => inferInstanceAs (Decidable (_ = _))
  | .realloc _ _ => inferInstanceAs (Decidable (_ ∧ _))

theorem Call.ZeroSized.frees {call : Call} (h : call.ZeroSized) : call.frees = none := by
  cases call with
  | malloc size => rfl
  | free ptr => exact absurd h id
  | calloc nmemb size => rfl
  | realloc ptr size => simp [Call.frees, h.1]

/-- The C library would answer a request for zero bytes with the address of a
freed record. -/
def HuState.Reissues (s : HuState) (ans : SysAns) : Prop :=
  s.sys.arena.Admits ⟨ans.ptr, 0, .malloc⟩ ∧ ans.ptr ∈ s.log.freedAllocations

instance (s : HuState) (ans : SysAns) : Decidable (s.Reissues ans) :=
  inferInstanceAs (Decidable (_ ∧ _))

/-- A request for zero bytes goes to the C library in every configuration. -/
theorem allocHalf_zero_sized (c : HuConfig) (ans : SysAns) {call : Call} (s : HuState)
    (hz : call.ZeroSized) :
    (allocHalf c ans call s).2 = 0 ∨
      s.sys.arena.Admits ⟨ans.ptr, 0, .malloc⟩ ∧ (allocHalf c ans call s).2 = ans.ptr := by
  have hmal : (s.libcMalloc ans 0).2 = 0 ∨
      s.sys.arena.Admits ⟨ans.ptr, 0, .malloc⟩ ∧ (s.libcMalloc ans 0).2 = ans.ptr := by
    rcases SysHeap.libcMalloc_cases ans s.sys 0 with h | ⟨hr, h⟩
    · exact .inl (by rw [HuState.libcMalloc, h])
    · exact .inr ⟨hr, by rw [HuState.libcMalloc, h]⟩
  have hcal : ∀ nmemb size, nmemb * size = 0 → (s.libcCalloc ans nmemb size).2 = 0 ∨
      s.sys.arena.Admits ⟨ans.ptr, 0, .malloc⟩ ∧ (s.libcCalloc ans nmemb size).2 = ans.ptr := by
    intro nmemb size hns
    rcases SysHeap.libcCalloc_cases ans s.sys nmemb size with h | ⟨-, hr, h⟩
    · exact .inl (by rw [HuState.libcCalloc, h])
    · exact .inr ⟨by rwa [hns] at hr, by rw [HuState.libcCalloc, h]⟩
  unfold allocHalf
  cases call with
  | malloc size =>
    simp only [Call.ZeroSized] at hz
    subst hz
    split
    · rw [huCall, huMalloc_zero]
      exact hmal
    · exact hmal
  | free ptr => exact absurd hz id
  | calloc nmemb size =>
    simp only [Call.ZeroSized] at hz
    split
    · rw [huCall, huCalloc_zero _ _ _ hz]
      exact hcal nmemb size hz
    · exact hcal nmemb size hz
  | realloc ptr size =>
    obtain ⟨rfl, rfl⟩ := hz
    split
    · rw [huCall, huRealloc_zero]
      exact hmal
    · exact hmal

/-- Nothing else hands out a block for zero bytes. -/
theorem allocHalf_requested_zero (c : HuConfig) (ans : SysAns) {call : Call} (s : HuState)
    (hreq : call.requested = 0) : (allocHalf c ans call s).2 = 0 ∨ call.ZeroSized := by
  cases call with
  | malloc size => exact .inr hreq
  | free ptr =>
    left
    unfold allocHalf
    split <;> rfl
  | calloc nmemb size => exact .inr hreq
  | realloc ptr size =>
    simp only [Call.requested] at hreq
    subst hreq
    by_cases hp : ptr = 0
    · exact .inr ⟨hp, rfl⟩
    · left
      have hlibc : (s.libcRealloc ans ptr 0).2 = 0 := by
        unfold HuState.libcRealloc
        cases hfind : s.sys.arena.find ptr with
        | none => rw [SysHeap.libcRealloc_undefined ans s.sys hp hfind]
        | some r =>
          rcases SysHeap.libcRealloc_cases ans s.sys hp hfind 0 with ⟨-, h⟩ | ⟨h, -⟩ | ⟨h, -⟩
          · rw [h]
          · exact absurd rfl h
          · exact absurd rfl h
      unfold allocHalf huCall huRealloc
      simp only [hp, if_false, if_true]
      split
      · split
        · exact hlibc
        · rfl
      · exact hlibc

/-- The steps that make no false report: the program passes on null or a block
it holds, a fenced request lands in its region, a request that is refused is below
the minimum size and not the `realloc` of a tracked block, and a request for
zero bytes is not answered with the address of a freed record. -/
structure Session.Quiet (c : HuConfig) (σ : Session) (i : Input) : Prop where
  permitted : i.call.Permitted σ.client
  lands : i.call.Lands c
  refused : i.call.Refused c i.env.ans σ.tool → i.call.FailsQuietly c σ.tool.log
  zeroSized : i.call.ZeroSized → ¬ σ.tool.Reissues i.env.ans

instance Session.decidableQuiet (c : HuConfig) (σ : Session) (i : Input) :
    Decidable (σ.Quiet c i) :=
  decidable_of_iff
    (i.call.Permitted σ.client ∧ i.call.Lands c ∧
      (i.call.Refused c i.env.ans σ.tool → i.call.FailsQuietly c σ.tool.log) ∧
      (i.call.ZeroSized → ¬ σ.tool.Reissues i.env.ans))
    ⟨fun ⟨h1, h2, h3, h4⟩ => ⟨h1, h2, h3, h4⟩, fun h => ⟨h.1, h.2, h.3, h.4⟩⟩

theorem Session.Quiet.sound {c : HuConfig} {σ : Session} {i : Input} (hinv : SessionInv c σ)
    (h : σ.Quiet c i) : σ.Sound c i :=
  ⟨h.permitted, h.lands, fun hf => h.refused ((hinv.failed_iff h.permitted h.lands).mp hf)⟩

/-- A quiet call without an allocation event does not return a freed record's address. -/
theorem Session.Quiet.not_reissued {c : HuConfig} {σ : Session} {i : Input} (hq : σ.Quiet c i)
    (hal : i.call.allocs = none) :
    (σ.result c i).2 = 0 ∨ (σ.result c i).2 ∉ (freeEvent c.logConfig i.env i.call
      (allocHalf c i.env.ans i.call σ.tool).1.log).freedAllocations := by
  have hev := allocHalf_log c i.env.ans i.call σ.tool
  rw [Session.result_eq]
  rcases allocHalf_requested_zero c i.env.ans σ.tool (Call.allocs_eq_none.mp hal) with h0 | hz
  · exact .inl h0
  rcases allocHalf_zero_sized c i.env.ans σ.tool hz with h0 | ⟨hadm, heq⟩
  · exact .inl h0
  -- such a call frees nothing, so the records are those before the call
  rw [freeEvent_of_none _ _ _ _ hz.frees, heq]
  exact .inr (hev.not_mem fun hmem => hq.zeroSized hz ⟨hadm, hmem⟩)

/-- The records of freed blocks stay apart from the live blocks. -/
theorem FreedApart.next {c : HuConfig} {σ : Session} {i : Input} (hdf : c.huDoublefree = true)
    (hinv : SessionInv c σ) (h : FreedApart σ.tool.log σ.client) (hq : σ.Quiet c i) :
    FreedApart (σ.next c i).tool.log (σ.next c i).client := by
  have hev := allocHalf_log c i.env.ans i.call σ.tool
  have hlog : (allocHalf c i.env.ans i.call σ.tool).1.log.loggingEnabled = true := by
    rw [hev.enabled, hinv.configured.logging]
  have hapart : FreedApart (allocHalf c i.env.ans i.call σ.tool).1.log σ.client := h.evicted hev
  have hnull := hinv.heap.null_not_held
  have h0 : 0 ∉ (allocHalf c i.env.ans i.call σ.tool).1.log.allocations := by
    rw [hev.allocations]
    exact hinv.mirror.not_listed hnull
  have hkeep : c.logConfig.keepsFreed = true := by
    simp [LogConfig.keepsFreed, HuConfig.logConfig, hdf]
  have hnext : (σ.next c i).client = i.call.after true (σ.result c i).2 σ.client := rfl
  rw [Session.next_log, hnext]
  by_cases hf : i.call.Failed (σ.result c i).2
  · rw [Call.after_failed hf]
    refine hapart.failed hkeep hlog hq.permitted ?_ hf
    rw [hev.allocations]
    exact ((hq.sound hinv).failed hf).2
  · rw [Call.after_eq true hnull (Session.result_free c σ i) hf, logEvents]
    have hgiven : FreedApart (freeEvent c.logConfig i.env i.call
        (allocHalf c i.env.ans i.call σ.tool).1.log) (σ.client.drop i.call.argument) :=
      hapart.given hlog hinv.heap.client_nodup hnull h0 hq.permitted
    cases hal : i.call.allocs with
    | some size => exact hgiven.allocated hkeep (by rw [freeEvent_enabled, hlog]) hal _
    | none =>
      rw [allocEvent_of_none _ _ _ _ _ hal]
      exact hgiven.receive_untracked (hq.not_reissued hal)

/-- **No false double-free report** in any run of quiet steps: the branch that
counts an invalid deallocation is never taken. -/
theorem no_false_double_free (c : HuConfig) (hdf : c.huDoublefree = true) (is : List Input)
    (hrun : Along (Session.next c) (Session.Quiet c) (.init c) is) :
    (exec (Session.next c) (.init c) is).tool.log.totalInvalidDeallocCount = 0 := by
  have hinit : FreedApart (Session.init c).tool.log (Session.init c).client := by
    refine ⟨?_, ?_, rfl, rfl⟩ <;>
      simp [Session.init, huInit, logEnable, logInit, ClientHeap.ptrs]
  have hstep : ∀ σ i, (SessionInv c σ ∧ FreedApart σ.tool.log σ.client) → σ.Quiet c i →
      SessionInv c (σ.next c i) ∧ FreedApart (σ.next c i).tool.log (σ.next c i).client :=
    fun σ i hinv hq => ⟨hinv.1.next (hq.sound hinv.1), hinv.2.next hdf hinv.1 hq⟩
  exact (Along.invariant hstep is _ ⟨SessionInv.init c, hinit⟩ hrun).2.count

/-- An address used again by a request that is tracked makes no report. -/
theorem no_false_double_free_reused :
    let c := HuConfig.tools true false false 0
    let is : List Input := [⟨.malloc 8, .answering 64⟩, ⟨.free 64, .answering 0⟩,
      ⟨.calloc 2 4, .answering 64⟩, ⟨.free 64, .answering 0⟩]
    (exec (Session.next c) (.init c) is).tool.log.totalInvalidDeallocCount = 0 := by
  intro c is
  exact no_false_double_free c rfl is (by decide)

/-- A block is freed, its address handed out again for zero bytes without an
event, and that block freed: a report, with every pointer passed on live. -/
theorem false_double_free_report :
    let c := HuConfig.tools true false false 0
    let is : List Input := [⟨.malloc 8, .answering 64⟩, ⟨.free 64, .answering 0⟩,
      ⟨.malloc 0, .answering 64⟩, ⟨.free 64, .answering 0⟩]
    Along (Session.next c) (fun σ i => i.call.Permitted σ.client) (.init c) is ∧
      (exec (Session.next c) (.init c) is).tool.log.totalInvalidDeallocCount = 1 :=
  ⟨by decide, by decide⟩

end Heapusage
