/-
Heapusage.Client.Attribution — what the fault handler says about an access to
a quarantined block.

§1 Traces  — a run of the wrappers with, for each address, the callstacks of
             its last allocation and of the last release of an active block
             there. They are written down beside the tool and never read by it.
§2 Records — the records of the log are those of the blocks: active blocks are
             listed with their own allocation, quarantined ones, where a record
             is left, with their own allocation and release (`AttrInv`).
§3 Search  — the answer of the search for every iteration order of the two maps.
§4 The fault is attributed to the block exactly when nothing masks it
   (`quarantined_fault_attributed`); an active block in front of the
   quarantined one does (`adjacent_block_takes_fault`).
-/
import Heapusage.Client.Containers
import Heapusage.Client.Tracking

namespace Heapusage

open Arenas Runs Tables

/-! ## §1 Traces -/

/-- A run of a program under the tool with the callstacks of its calls. -/
structure Trace where
  tool : HuState
  client : ClientHeap
  /-- the callstack of the last call that returned an address -/
  birth : Nat → Callstack
  /-- the callstack of the last call that gave up an active block at an address -/
  death : Nat → Callstack

/-- The program after `hu_init`. -/
def Trace.init (c : HuConfig) : Trace := ⟨huInit c, [], fun _ => [], fun _ => []⟩

/-- A call of a wrapper. A fenced block that `hu_realloc` released because it
found no memory is not live any more. -/
def Trace.next (c : HuConfig) (σ : Trace) (i : Input) : Trace :=
  let r := wrapper c i.env .fresh i.call σ.tool
  { tool := r.1
    client := i.call.after (σ.tool.keeps i.call) r.2 σ.client
    birth := fun p => if p = r.2 then i.env.allocStack else σ.birth p
    death := fun p =>
      if p = i.call.argument ∧ p ∈ σ.tool.mal.huActiveAllocs then i.env.freeStack
      else σ.death p }

/-- The calls of the runs considered: null or live pointers, and for `free` any
address that was ever a fenced block; a fenced request lands in its region. -/
structure Trace.Handles (c : HuConfig) (σ : Trace) (i : Input) : Prop where
  handled : i.call.Handled σ.tool σ.client
  lands : i.call.Lands c

/-! ## §2 Records -/

/-- The record of a quarantined block with its own two callstacks. -/
def Trace.record (σ : Trace) (b : HuAllocInfo) : HuAllocinfoT where
  ptr := b.userPtr
  size := b.userSize
  callstack := σ.birth b.userPtr
  freeCallstack := σ.death b.userPtr
  count := 1

/-- The records of the log are those of the blocks. -/
structure AttrInv (c : HuConfig) (σ : Trace) : Prop where
  configured : σ.tool.Configured c
  heap : HeapInv (.placed c.mallocConfig) σ.tool σ.client
  /-- an active block is listed with its own allocation -/
  listed : ∀ k b, σ.tool.mal.huActiveAllocs.lookup k = some b →
    σ.tool.log.allocations.lookup k = some { σ.record b with freeCallstack := [] }
  /-- a quarantined block is not listed -/
  gone : ∀ b ∈ σ.tool.mal.huQuarantineAllocs, b.userPtr ∉ σ.tool.log.allocations
  /-- a record left of a quarantined block is its own -/
  own : ∀ b ∈ σ.tool.mal.huQuarantineAllocs, ∀ r,
    σ.tool.log.freedAllocations.lookup b.userPtr = some r → r = σ.record b
  keyed : σ.tool.log.Keyed

namespace AttrInv

variable {c : HuConfig} {σ : Trace} {i : Input}

theorem init (c : HuConfig) : AttrInv c (.init c) := by
  have hinit := SessionInv.init c
  refine ⟨hinit.configured, hinit.heap, ?_, ?_, ?_, ?_⟩
  · intro k b hk
    rw [Trace.init, huInit_active] at hk
    exact absurd hk (by simp)
  · intro b hb
    exact AList.notMem_empty _
  · intro b hb r hr
    exact absurd hr (by simp [Trace.init, huInit, logEnable, logInit])
  · refine ⟨?_, ?_, ?_⟩ <;> intro k <;> simp [Trace.init, huInit, logEnable, logInit]

/-- A quarantined block is not active. -/
theorem queue_not_active (h : AttrInv c σ) {b : HuAllocInfo}
    (hb : b ∈ σ.tool.mal.huQuarantineAllocs) : b.userPtr ∉ σ.tool.mal.huActiveAllocs := by
  intro hmem
  obtain ⟨d, hd⟩ := exists_lookup hmem
  exact h.gone b hb (mem_of_lookup (h.listed _ d hd))

/-- An active block that is given up has a free event. -/
theorem frees_of_active (h : AttrInv c σ) {call : Call}
    (hact : call.argument ∈ σ.tool.mal.huActiveAllocs) : call.frees = some call.argument := by
  cases hfr : call.frees with
  | some p => rw [Call.frees_eq_some hfr]
  | none =>
    rw [Call.frees_eq_none hfr] at hact
    exact absurd hact h.heap.null_not_active

/-- What the proofs of a step share: the log before the two events, and what is
known of the result. -/
structure StepFacts (c : HuConfig) (σ : Trace) (i : Input) (q : Nat) (l : LogState) : Prop where
  evicted : σ.tool.log.Evicted l
  log : (σ.next c i).tool.log = allocEvent c.logConfig i.env q i.call
    (freeEvent c.logConfig i.env i.call l)
  birth : (σ.next c i).birth = fun p => if p = q then i.env.allocStack else σ.birth p
  death : (σ.next c i).death = fun p =>
    if p = i.call.argument ∧ p ∈ σ.tool.mal.huActiveAllocs then i.env.freeStack else σ.death p
  moves : HeapInv.Moves c.mallocConfig i.call q σ.tool (σ.next c i).tool
  fresh : ∀ b ∈ σ.tool.mal.owned, b.userPtr ≠ q
  fits : q ≠ 0 → i.call.allocs =
    if 0 < i.call.requested then some i.call.requested else none
  heap : HeapInv (.placed c.mallocConfig) (σ.next c i).tool (σ.next c i).client

theorem stepFacts (h : AttrInv c σ) (huaf : c.huUseafterfree = true) (hi : σ.Handles c i) :
    ∃ q l, StepFacts c σ i q l := by
  have hon : c.huEnableHumalloc = true := by simp [HuConfig.huEnableHumalloc, huaf]
  have hinit : σ.tool.mal.huMallocInited = true := by rw [h.configured.inited, hon]
  have htakes : 0 < i.call.requested → c.mallocConfig.huMinsize ≤ i.call.requested →
      (Layout.placed c.mallocConfig).Takes c.mallocConfig i.call.requested :=
    fun hpos hmin => (hi.lands hon hpos hmin).takes hpos hmin
  have half : allocHalf c i.env.ans i.call σ.tool =
      huCall c.mallocConfig c.logConfig i.env.ans i.call σ.tool := if_pos hon
  have hmal : (σ.next c i).tool.mal =
      (huCall c.mallocConfig c.logConfig i.env.ans i.call σ.tool).1.mal :=
    fenced_mal hon i.env i.call σ.tool
  have hsys : (σ.next c i).tool.sys =
      (huCall c.mallocConfig c.logConfig i.env.ans i.call σ.tool).1.sys :=
    fenced_sys hon i.env i.call σ.tool
  have hmoves := h.heap.huCall_moves c.mallocConfig c.logConfig i.env.ans i.call hinit
    hi.handled htakes
  have hkeeps := h.heap.huCall_keeps c.mallocConfig c.logConfig i.env.ans i.call hinit
    hi.handled htakes
  refine ⟨(allocHalf c i.env.ans i.call σ.tool).2, (allocHalf c i.env.ans i.call σ.tool).1.log,
    ?_, ?_, ?_, rfl, ?_, ?_, ?_, ?_⟩
  · exact allocHalf_log c i.env.ans i.call σ.tool
  · simp only [Trace.next, tracked_eq, logHalf_log]
    rfl
  · simp only [Trace.next, tracked_eq]
  · rw [half]
    refine ⟨?_, ?_⟩
    · rw [hmal]
      exact hmoves.active
    · rw [hmal]
      exact hmoves.queue
  · intro b hb
    rw [half]
    exact h.heap.huCall_fresh c.mallocConfig c.logConfig i.env.ans i.call hinit hi.handled htakes hb
  · intro hq
    refine Call.allocs_eq fun nmemb size hcall => ?_
    rw [hcall] at hq
    exact allocHalf_calloc_fits c i.env.ans σ.tool hq
  · have hclient : (σ.next c i).client = i.call.after (σ.tool.keeps i.call)
        (huCall c.mallocConfig c.logConfig i.env.ans i.call σ.tool).2 σ.client := by
      simp only [Trace.next, tracked_eq, half]
    rw [hclient]
    exact hkeeps.congr (by rw [hmal]) (by rw [hmal]) (by rw [hmal]) (by rw [hsys])

namespace StepFacts

variable {q : Nat} {l : LogState}

theorem enabled (f : StepFacts c σ i q l) (h : AttrInv c σ) : l.loggingEnabled = true := by
  rw [f.evicted.enabled, h.configured.logging]

/-- A pointer that is neither given up nor returned is listed as before. -/
theorem listed_same (f : StepFacts c σ i q l) (h : AttrInv c σ) {k : Nat} (hkq : k ≠ q)
    (hka : k ≠ i.call.argument) :
    (σ.next c i).tool.log.allocations.lookup k = σ.tool.log.allocations.lookup k := by
  rw [f.log, allocEvent_allocations_ne hkq, freeEvent_allocations_ne (f.enabled h) hka,
    f.evicted.allocations]

/-- A freed record of a pointer that is not given up was there before. -/
theorem freed_same (f : StepFacts c σ i q l) (h : AttrInv c σ) {k : Nat} {r : HuAllocinfoT}
    (hka : k ≠ i.call.argument) (hr : (σ.next c i).tool.log.freedAllocations.lookup k = some r) :
    σ.tool.log.freedAllocations.lookup k = some r := by
  rw [f.log] at hr
  exact f.evicted.freed k r (freeEvent_freed_ne (f.enabled h) hka (allocEvent_freed hr))

/-- A block that was not given up has the same record as before. -/
theorem record_same (f : StepFacts c σ i q l) {b : HuAllocInfo} (hbq : b.userPtr ≠ q)
    (hba : ¬ (b.userPtr = i.call.argument ∧ b.userPtr ∈ σ.tool.mal.huActiveAllocs)) :
    (σ.next c i).record b = σ.record b := by
  simp only [Trace.record, f.birth, f.death, if_neg hbq, if_neg hba]

end StepFacts

section Next

variable {q : Nat} {l : LogState}

theorem next_listed (h : AttrInv c σ) (f : StepFacts c σ i q l) {k : Nat} {b : HuAllocInfo}
    (hk : (σ.next c i).tool.mal.huActiveAllocs.lookup k = some b) :
    (σ.next c i).tool.log.allocations.lookup k =
      some { (σ.next c i).record b with freeCallstack := [] } := by
  rcases f.moves.active k b hk with ⟨rfl, hsize, hpos, hmin⟩ | ⟨hold, hka⟩
  · have hkey := f.heap.active_key k b hk
    have hq0 : k ≠ 0 := by
      intro hk0
      subst hk0
      exact f.heap.null_not_active (mem_of_lookup hk)
    have hal := f.fits hq0
    rw [if_pos hpos] at hal
    have hon : (freeEvent c.logConfig i.env i.call l).loggingEnabled = true := by
      rw [freeEvent_enabled, f.enabled h]
    rw [f.log, allocEvent_of_some _ _ _ _ _ hal hon, logMalloc_allocations,
      if_pos (show c.logConfig.huLogMinleak ≤ i.call.requested from hmin), AList.lookup_insert]
    simp only [Trace.record, f.birth, hkey, hsize, if_true]
  · have hown := MallocState.active_owned hold
    have hkey := h.heap.active_key k b hold
    have hkq : k ≠ q := hkey ▸ f.fresh b hown
    rw [f.listed_same h hkq hka, h.listed k b hold,
      f.record_same (f.fresh b hown) (fun hc => hka (hkey ▸ hc.1))]

theorem next_gone (h : AttrInv c σ) (f : StepFacts c σ i q l) {b : HuAllocInfo}
    (hb : b ∈ (σ.next c i).tool.mal.huQuarantineAllocs) :
    b.userPtr ∉ (σ.next c i).tool.log.allocations := by
  have hlog := f.enabled h
  rcases f.moves.queue b hb with hold | hact
  · have hbq := f.fresh b (MallocState.queue_owned hold)
    rw [f.log, ← AList.lookup_eq_none, allocEvent_allocations_ne hbq]
    by_cases hba : b.userPtr = i.call.argument
    · cases hfr : i.call.frees with
      | none =>
        rw [freeEvent_of_none _ _ _ _ hfr, f.evicted.allocations]
        exact AList.lookup_eq_none.mpr (h.gone b hold)
      | some p =>
        rw [freeEvent_of_some _ _ _ _ hfr hlog, logFree_allocations, hba,
          Call.frees_eq_some hfr, AList.lookup_erase]
    · rw [freeEvent_allocations_ne hlog hba, f.evicted.allocations]
      exact AList.lookup_eq_none.mpr (h.gone b hold)
  · have hkey := h.heap.active_key _ b hact
    have hbq := f.fresh b (MallocState.active_owned hact)
    have hfr := h.frees_of_active (mem_of_lookup hact)
    rw [f.log, ← AList.lookup_eq_none, allocEvent_allocations_ne hbq,
      freeEvent_of_some _ _ _ _ hfr hlog, logFree_allocations, hkey, AList.lookup_erase]

/-- A block that stays in the quarantine: a record left of it is the old one. -/
theorem next_own_old (h : AttrInv c σ) (f : StepFacts c σ i q l) {b : HuAllocInfo}
    (hold : b ∈ σ.tool.mal.huQuarantineAllocs) {r : HuAllocinfoT}
    (hr : (σ.next c i).tool.log.freedAllocations.lookup b.userPtr = some r) :
    r = (σ.next c i).record b := by
  have hbq := f.fresh b (MallocState.queue_owned hold)
  have hnot := h.queue_not_active hold
  rw [f.record_same hbq (fun hc => hnot hc.2)]
  refine h.own b hold r ?_
  by_cases hba : b.userPtr = i.call.argument
  · rw [f.log] at hr
    have hr := allocEvent_freed hr
    cases hfr : i.call.frees with
    | none =>
      rw [freeEvent_of_none _ _ _ _ hfr] at hr
      exact f.evicted.freed _ r hr
    | some p =>
      have hp : p ∉ l.allocations := by
        rw [f.evicted.allocations, ← Call.frees_eq_some hfr, ← hba]
        exact h.gone b hold
      rw [freeEvent_of_some _ _ _ _ hfr (f.enabled h)] at hr
      exact f.evicted.freed _ r (logFree_freed_unlisted _ _ _ _ hp hr)
  · exact f.freed_same h hba hr

/-- A block that is given up: its record moves over with the callstack of the free. -/
theorem next_own_new (h : AttrInv c σ) (huaf : c.huUseafterfree = true)
    (f : StepFacts c σ i q l) {b : HuAllocInfo}
    (hact : σ.tool.mal.huActiveAllocs.lookup i.call.argument = some b) {r : HuAllocinfoT}
    (hr : (σ.next c i).tool.log.freedAllocations.lookup b.userPtr = some r) :
    r = (σ.next c i).record b := by
  have hkeep : c.logConfig.keepsFreed = true := by
    simp [LogConfig.keepsFreed, HuConfig.logConfig, huaf]
  have hkeyed : l.Keyed := h.keyed.evicted f.evicted
  have hkey := h.heap.active_key _ b hact
  have hbq := f.fresh b (MallocState.active_owned hact)
  have hmem := mem_of_lookup hact
  have hfr := h.frees_of_active hmem
  have hlisted := h.listed _ b hact
  rw [← f.evicted.allocations] at hlisted
  rw [f.log] at hr
  have hr := allocEvent_freed hr
  rw [freeEvent_of_some _ _ _ _ hfr (f.enabled h), logFree_freed_listed _ _ _ _ hlisted,
    if_pos hkeep, insertNew_of_not_mem (hkeyed.apart _ (mem_of_lookup hlisted)), hkey,
    AList.lookup_insert] at hr
  cases hr
  have hka : i.call.argument ≠ q := hkey ▸ hbq
  simp only [freedRecord, hkeep, if_true, Trace.record, f.birth, f.death, hkey, if_neg hka,
    hmem, and_self]

end Next

/-- **One step keeps the records with their blocks.** -/
theorem next (h : AttrInv c σ) (huaf : c.huUseafterfree = true) (hi : σ.Handles c i) :
    AttrInv c (σ.next c i) := by
  obtain ⟨q, l, f⟩ := h.stepFacts huaf hi
  have hkeep : c.logConfig.keepsFreed = true := by
    simp [LogConfig.keepsFreed, HuConfig.logConfig, huaf]
  refine ⟨h.configured.next i.env i.call, f.heap, fun _ _ hk => h.next_listed f hk,
    fun _ hb => h.next_gone f hb, ?_, ?_⟩
  · intro b hb r hr
    rcases f.moves.queue b hb with hold | hact
    · exact h.next_own_old f hold hr
    · exact h.next_own_new huaf f hact hr
  · rw [f.log]
    exact allocEvent_keyed hkeep (freeEvent_keyed (h.keyed.evicted f.evicted))

end AttrInv

/-! ## §3 Search -/

section Search

variable {page x : Nat}

theorem searchActive_eq_none {active : List HuAllocinfoT} :
    searchActive page x active = none ↔ ∀ a ∈ active, afterBlock page a x = false := by
  induction active with
  | nil => simp [searchActive]
  | cons a rest ih =>
    unfold searchActive
    cases ha : afterBlock page a x with
    | true => simp [ha]
    | false => simp [ha, ih]

/-- The first loop reports blocks as allocated. -/
theorem searchActive_ne_insideFree {active : List HuAllocinfoT} {offset : Nat}
    {d : HuAllocinfoT} : searchActive page x active ≠ some (.insideFree offset d) := by
  induction active with
  | nil => simp [searchActive]
  | cons a rest ih =>
    unfold searchActive
    split
    · simp
    · exact ih

/-- Only the first record whose window holds the address is reported. -/
theorem searchFreed_insideFree {freed : List HuAllocinfoT} {offset : Nat} {r : HuAllocinfoT}
    (h : searchFreed page x freed = some (.insideFree offset r)) :
    r ∈ freed ∧ afterBlock page r x = false ∧ insideBlock page r x = true := by
  induction freed with
  | nil => exact absurd h (by simp [searchFreed])
  | cons a rest ih =>
    unfold searchFreed at h
    cases ha : afterBlock page a x with
    | true => simp [ha] at h
    | false =>
      cases hin : insideBlock page a x with
      | true =>
        simp only [ha, hin, Bool.false_eq_true, if_false, if_true, Option.some.injEq,
          Attribution.insideFree.injEq] at h
        obtain ⟨-, rfl⟩ := h
        exact ⟨List.mem_cons_self .., ha, hin⟩
      | false =>
        simp only [ha, hin, Bool.false_eq_true, if_false] at h
        obtain ⟨hmem, hrest⟩ := ih h
        exact ⟨List.mem_cons_of_mem a hmem, hrest⟩

/-- Records whose windows do not hold the address are passed over. -/
theorem searchFreed_of_unmasked {freed : List HuAllocinfoT} {r : HuAllocinfoT} (hr : r ∈ freed)
    (hafter : afterBlock page r x = false) (hin : insideBlock page r x = true)
    (hothers : ∀ d ∈ freed, d ≠ r → afterBlock page d x = false ∧ insideBlock page d x = false) :
    searchFreed page x freed = some (.insideFree (Words.sub 64 x r.ptr) r) := by
  induction freed with
  | nil => exact absurd hr (List.not_mem_nil)
  | cons a rest ih =>
    unfold searchFreed
    by_cases har : a = r
    · subst har
      simp [hafter, hin]
    · obtain ⟨ha1, ha2⟩ := hothers a (List.mem_cons_self ..) har
      have hrest := (List.mem_cons.mp hr).resolve_left (Ne.symm har)
      simp only [ha1, ha2, Bool.false_eq_true, if_false]
      exact ih hrest fun d hd => hothers d (List.mem_cons_of_mem a hd)

/-- The search reports `r` in every iteration order exactly if the window of `r`
holds the address and no other window does. -/
theorem sigSearch_every_order {A F : List HuAllocinfoT} {r : HuAllocinfoT} :
    (∀ active freed, active.Perm A → freed.Perm F →
      sigSearch page x active freed = some (.insideFree (Words.sub 64 x r.ptr) r)) ↔
    (r ∈ F ∧ afterBlock page r x = false ∧ insideBlock page r x = true) ∧
      (∀ a ∈ A, afterBlock page a x = false) ∧
      ∀ d ∈ F, d ≠ r → afterBlock page d x = false ∧ insideBlock page d x = false := by
  have hsplit : ∀ {active freed : List HuAllocinfoT} {offset : Nat} {d : HuAllocinfoT},
      sigSearch page x active freed = some (.insideFree offset d) →
      searchActive page x active = none ∧
        searchFreed page x freed = some (.insideFree offset d) := by
    intro active freed offset d h
    unfold sigSearch at h
    cases hact : searchActive page x active with
    | none =>
      rw [hact] at h
      exact ⟨rfl, h⟩
    | some found =>
      rw [hact] at h
      exact absurd (hact.trans h) searchActive_ne_insideFree
  constructor
  · intro h
    obtain ⟨hact, hfreed⟩ := hsplit (h A F (List.Perm.refl A) (List.Perm.refl F))
    refine ⟨searchFreed_insideFree hfreed, searchActive_eq_none.mp hact, ?_⟩
    intro d hd hne
    -- an order in which `d` comes first
    have hfirst := (hsplit (h A (d :: F.erase d) (List.Perm.refl A)
      (List.perm_cons_erase hd).symm)).2
    unfold searchFreed at hfirst
    cases hafter : afterBlock page d x with
    | true => simp [hafter] at hfirst
    | false =>
      cases hin : insideBlock page d x with
      | true =>
        simp only [hafter, hin, Bool.false_eq_true, if_false, if_true, Option.some.injEq,
          Attribution.insideFree.injEq] at hfirst
        exact absurd hfirst.2 hne
      | false => exact ⟨rfl, rfl⟩
  · rintro ⟨⟨hr, hafter, hin⟩, hactive, hothers⟩ active freed hA hF
    have hnone : searchActive page x active = none :=
      searchActive_eq_none.mpr fun a ha => hactive a (hA.mem_iff.mp ha)
    unfold sigSearch
    rw [hnone]
    exact searchFreed_of_unmasked (hF.mem_iff.mpr hr) hafter hin
      fun d hd => hothers d (hF.mem_iff.mp hd)

end Search

/-! ## §4 Attribution -/

/-- Nothing stands between a fault at `x` and the quarantined block `b`: its
record is still there and its window, which the code ends a page after the
block in 64-bit arithmetic, holds `x`; no listed block ends within a page before
`x`; and no other freed record has `x` in its window. -/
structure Trace.Unmasked (c : HuConfig) (σ : Trace) (b : HuAllocInfo) (x : Nat) : Prop where
  recorded : b.userPtr ∈ σ.tool.log.freedAllocations
  notAfter : afterBlock c.huPageSize (σ.record b) x = false
  inside : insideBlock c.huPageSize (σ.record b) x = true
  active : ∀ a ∈ values σ.tool.log.allocations, afterBlock c.huPageSize a x = false
  freed : ∀ r ∈ values σ.tool.log.freedAllocations, r.ptr ≠ b.userPtr →
    afterBlock c.huPageSize r x = false ∧ insideBlock c.huPageSize r x = false

/-- **A fault inside a quarantined block is attributed to it, with its own
callstacks and in every iteration order, exactly if nothing masks it.** -/
theorem quarantined_fault_attributed (c : HuConfig) (huaf : c.huUseafterfree = true)
    (is : List Input) (hrun : Along (Trace.next c) (Trace.Handles c) (.init c) is)
    (b : HuAllocInfo)
    (hb : b ∈ (exec (Trace.next c) (.init c) is).tool.mal.huQuarantineAllocs) (x : Nat)
    (hx : x < 2 ^ 64) (hlo : b.userPtr ≤ x) :
    (∀ active freed,
      active.Perm (values (exec (Trace.next c) (.init c) is).tool.log.allocations) →
      freed.Perm (values (exec (Trace.next c) (.init c) is).tool.log.freedAllocations) →
      sigSearch c.huPageSize x active freed = some (.insideFree (x - b.userPtr)
        ((exec (Trace.next c) (.init c) is).record b))) ↔
    (exec (Trace.next c) (.init c) is).Unmasked c b x := by
  have hinv : AttrInv c (exec (Trace.next c) (.init c) is) :=
    Along.invariant (fun σ _ (h : AttrInv c σ) hi => h.next huaf hi) is _ (AttrInv.init c) hrun
  set σ := exec (Trace.next c) (.init c) is
  have hoffset : x - b.userPtr = Words.sub 64 x (σ.record b).ptr := (Words.sub_eq hlo hx).symm
  have hmem : b.userPtr ∈ σ.tool.log.freedAllocations ↔
      σ.record b ∈ values σ.tool.log.freedAllocations := by
    constructor
    · intro h
      obtain ⟨r, hr⟩ := exists_lookup h
      rw [← hinv.own b hb r hr]
      exact mem_values_of_lookup hr
    · intro h
      obtain ⟨k, hk⟩ := mem_values.mp h
      have hkey : b.userPtr = k := hinv.keyed.freed k _ hk
      rw [hkey]
      exact mem_of_lookup hk
  have hother : ∀ r ∈ values σ.tool.log.freedAllocations,
      r ≠ σ.record b ↔ r.ptr ≠ b.userPtr := by
    intro r hr
    obtain ⟨k, hk⟩ := mem_values.mp hr
    refine not_congr ⟨fun h => by rw [h]; rfl, fun h => ?_⟩
    have hkey := hinv.keyed.freed k r hk
    rw [← hkey, h] at hk
    exact hinv.own b hb r hk
  rw [hoffset, sigSearch_every_order]
  constructor
  · intro hboth
    obtain ⟨⟨hrec, hafter, hin⟩, hactive, hothers⟩ := hboth
    exact ⟨hmem.mpr hrec, hafter, hin, hactive,
      fun r hr hne => hothers r hr ((hother r hr).mpr hne)⟩
  · intro h
    exact ⟨⟨hmem.mp h.recorded, h.notAfter, h.inside⟩, h.active,
      fun r hr hne => h.freed r hr ((hother r hr).mp hne)⟩

/-- The configuration of the two runs below: use-after-free detection with room
in the quarantine. -/
def quarantineConfig : HuConfig :=
  { HuConfig.tools false false true 0 with huQuarantineMaxSize := 65536 }

/-- The only block of the program: a fault in it is attributed to it. -/
theorem quarantined_fault_attributed_alone :
    let is : List Input := [⟨.malloc 8, .answering 8192⟩, ⟨.free 8192, .answering 0⟩]
    let σ := exec (Trace.next quarantineConfig) (.init quarantineConfig) is
    ∀ active freed, active.Perm (values σ.tool.log.allocations) →
      freed.Perm (values σ.tool.log.freedAllocations) →
      sigSearch 4096 8195 active freed =
        some (.insideFree 3 (σ.record ⟨8192, 8, 8192, 4096⟩)) := by
  intro is σ
  refine (quarantined_fault_attributed quarantineConfig rfl is ⟨⟨?_, ?_⟩, ⟨?_, ?_⟩, trivial⟩
    ⟨8192, 8, 8192, 4096⟩ (by decide) 8195 (by decide) (by decide)).mpr
      ⟨by decide, by decide, by decide, by decide, by decide⟩
  · exact .inl rfl
  · decide
  · exact .inr (.inl (by decide))
  · decide

/-- An active block on the page in front takes the fault: the first byte of the
quarantined block is reported as lying after a block that is still allocated. -/
theorem adjacent_block_takes_fault :
    let is : List Input := [⟨.malloc 8, .answering 8192⟩, ⟨.malloc 8, .answering 12288⟩,
      ⟨.free 12288, .answering 0⟩]
    let σ := exec (Trace.next quarantineConfig) (.init quarantineConfig) is
    Along (Trace.next quarantineConfig) (fun σ i => i.call.Permitted σ.client)
        (.init quarantineConfig) is ∧
      σ.tool.mal.huQuarantineAllocs = [⟨12288, 8, 12288, 4096⟩] ∧
      sigSearch 4096 12288 (values σ.tool.log.allocations) (values σ.tool.log.freedAllocations) =
        some (.afterAlloc 4088 ⟨8192, 8, [1, 2], [], 1⟩) :=
  ⟨by decide, by decide, by decide⟩

end Heapusage
