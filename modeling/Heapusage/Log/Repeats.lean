/-
Heapusage.Log.Repeats — how often the free of a freed block is counted.

§1 Stages  — an address with a tracked allocation goes from listed to freed to
             reported, one free at a time, whatever happens to other addresses
             (`Stage.next`, `Stage.run`).
§2 Counts  — only a free in the middle stage is counted, and the report takes
             the record away: the second free of a block is counted
             (`repeated_free_counted`), the third is not
             (`third_free_uncounted`).
-/
import Heapusage.Log.Ledger

namespace Heapusage

open Runs Tables

/-! ## §1 Stages -/

/-- Where the two tables have an address since its last tracked allocation. -/
inductive Stage where
  | live
  | freed
  | reported
  deriving DecidableEq, Repr

/-- The stage after a number of frees. -/
def Stage.after : Nat → Stage
  | 0 => .live
  | 1 => .freed
  | _ => .reported

/-- The address is in this stage. -/
def Stage.At (p : Nat) (l : LogState) : Stage → Prop
  | .live => p ∈ l.allocations ∧ p ∉ l.freedAllocations
  | .freed => p ∉ l.allocations ∧ p ∈ l.freedAllocations
  | .reported => p ∉ l.allocations ∧ p ∉ l.freedAllocations

section Tables

variable {c : LogConfig} {l : LogState} {i : LogInput} {p : Nat}

theorem invalidDealloc_uncaught (q : Nat) (block : HuAllocinfoT) (cs : Callstack)
    (h : l.uncaught = true) : (invalidDealloc c q block cs l).uncaught = true := by
  unfold invalidDealloc
  cases logIsValidCallstack c cs false with
  | true =>
    by_cases hcs : cs = []
    · simp [hcs]
    · simp [hcs, reportInvalidDealloc, h]
  | false => simp [h]

/-- An exception stays: the call never returned. -/
theorem logNext_uncaught (h : l.uncaught = true) : (logNext c l i).uncaught = true := by
  unfold logNext logEvent
  split
  · cases i.event with
    | malloc => exact (logMalloc_uncaught ..).trans h
    | free =>
      have htables : (logFreeTables c i.ptr i.callstack l).uncaught = true := by
        unfold logFreeTables
        split
        · exact h
        · split
          · split
            · exact invalidDealloc_uncaught _ _ _ h
            · exact h
          · exact h
      show (logFree c i.ptr i.callstack l).uncaught = true
      rw [logFree_eq, if_pos htables, htables]
  · exact h

theorem exec_uncaught (is : List LogInput) : ∀ l : LogState, l.uncaught = true →
    (exec (logNext c) l is).uncaught = true := by
  induction is with
  | nil => exact fun _ h => h
  | cons i is ih => exact fun l h => ih _ (logNext_uncaught h)

theorem exec_enabled (is : List LogInput) : ∀ l : LogState, l.loggingEnabled = true →
    (exec (logNext c) l is).loggingEnabled = true := by
  induction is with
  | nil => exact fun _ h => h
  | cons i is ih => exact fun l h => ih _ (logNext_enabled h)

/-- An event on another address leaves the two tables at `p` as they were. -/
theorem logNext_tables_ne (hp : i.ptr ≠ p) :
    (logNext c l i).allocations.lookup p = l.allocations.lookup p ∧
      (logNext c l i).freedAllocations.lookup p = l.freedAllocations.lookup p := by
  have hne : p ≠ i.ptr := hp.symm
  unfold logNext logEvent
  split
  · cases i.event with
    | malloc =>
      simp only [logMalloc_allocations, logMalloc_freed]
      constructor
      · split
        · exact AList.lookup_insert_ne hne
        · rfl
      · split
        · exact AList.lookup_erase_ne hne
        · rfl
    | free =>
      simp only [logFree_allocations]
      exact ⟨AList.lookup_erase_ne hne, logFree_freed_lookup_ne c i.ptr i.callstack l hne⟩
  · exact ⟨rfl, rfl⟩

theorem Stage.congr {l' : LogState} {st : Stage} (h : st.At p l)
    (ha : l'.allocations.lookup p = l.allocations.lookup p)
    (hf : l'.freedAllocations.lookup p = l.freedAllocations.lookup p) : st.At p l' := by
  have hamem : p ∈ l'.allocations ↔ p ∈ l.allocations := by
    rw [← AList.lookup_isSome, ← AList.lookup_isSome, ha]
  have hfmem : p ∈ l'.freedAllocations ↔ p ∈ l.freedAllocations := by
    rw [← AList.lookup_isSome, ← AList.lookup_isSome, hf]
  cases st <;> simpa only [Stage.At, hamem, hfmem] using h

/-! ### The address itself -/

/-- A tracked allocation makes the address live. -/
theorem Stage.alloc (hkeep : c.keepsFreed = true) (hon : l.loggingEnabled = true)
    (hi : i.Tracked c) : Stage.live.At i.ptr (logNext c l i) := by
  obtain ⟨hevent, hmin⟩ := hi
  rw [logNext_malloc hon hevent]
  refine ⟨?_, ?_⟩
  · rw [logMalloc_allocations, if_pos hmin]
    exact (AList.mem_insert _).mpr (.inl rfl)
  · rw [logMalloc_freed, if_pos hkeep, AList.mem_erase]
    exact fun h => h.1 rfl

/-- The stage one free further. -/
def Stage.free : Stage → Stage
  | .live => .freed
  | .freed => .reported
  | .reported => .reported

theorem logFree_not_listed (p : Nat) (cs : Callstack) :
    p ∉ (logFree c p cs l).allocations := by
  rw [logFree_allocations, AList.mem_erase]
  exact fun h => h.1 rfl

theorem logFree_count (p : Nat) (cs : Callstack) :
    (logFree c p cs l).totalInvalidDeallocCount =
      (logFreeTables c p cs l).totalInvalidDeallocCount := by
  rw [logFree_eq]
  split <;> rfl

/-- The free of a freed block goes through the report. -/
theorem Stage.freeTables_freed (hdf : c.huLogFree = true) (hst : Stage.freed.At p l)
    (cs : Callstack) : ∃ block, logFreeTables c p cs l = invalidDealloc c p block cs l := by
  obtain ⟨block, hblock⟩ := exists_lookup hst.2
  refine ⟨block, ?_⟩
  simp only [logFreeTables, AList.lookup_eq_none.mpr hst.1, hdf, if_true, hblock]

/-- A free that was reported leaves no trace. -/
theorem Stage.freeTables_reported (hdf : c.huLogFree = true) (hst : Stage.reported.At p l)
    (cs : Callstack) : logFreeTables c p cs l = l := by
  simp only [logFreeTables, AList.lookup_eq_none.mpr hst.1, hdf, if_true,
    AList.lookup_eq_none.mpr hst.2]

/-- A report with a valid callstack is counted. -/
theorem invalidDealloc_count (block : HuAllocinfoT) {cs : Callstack}
    (hvalid : logIsValidCallstack c cs false = true) :
    (invalidDealloc c p block cs l).totalInvalidDeallocCount =
      l.totalInvalidDeallocCount + 1 := by
  unfold invalidDealloc
  by_cases hcs : cs = []
  · rw [hcs] at hvalid
    simp [hcs, hvalid]
  · simp only [hvalid, hcs, if_true, if_false, reportInvalidDealloc]
    split <;> rfl

/-- A free event that returns moves the address one stage on. -/
theorem Stage.next (hdf : c.huLogFree = true) (hon : l.loggingEnabled = true) {st : Stage}
    (hst : st.At i.ptr l) (hfree : i.event = .free) (hret : (logNext c l i).uncaught = false) :
    st.free.At i.ptr (logNext c l i) := by
  have hkeep : c.keepsFreed = true := by rw [LogConfig.keepsFreed, hdf, Bool.or_true]
  rw [logNext_free hon hfree] at hret ⊢
  cases st with
  | live =>
    obtain ⟨info, hinfo⟩ := exists_lookup hst.1
    refine ⟨logFree_not_listed _ _, ?_⟩
    rw [logFree_freed_listed c _ _ l hinfo, if_pos hkeep]
    exact mem_insertNew.mpr (.inl rfl)
  | freed =>
    obtain ⟨block, htables⟩ := Stage.freeTables_freed hdf hst i.callstack
    have hcaught : (invalidDealloc c i.ptr block i.callstack l).uncaught = false := by
      rw [logFree_eq, htables] at hret
      split at hret
      · exact hret
      · exact hret
    refine ⟨logFree_not_listed _ _, ?_⟩
    rw [logFree_freed, htables, invalidDealloc_freedAllocations, hcaught,
      if_neg Bool.false_ne_true, AList.mem_erase]
    exact fun h => h.1 rfl
  | reported =>
    refine ⟨logFree_not_listed _ _, ?_⟩
    rw [logFree_freed, Stage.freeTables_reported hdf hst]
    exact hst.2

/-- It is counted in the middle one. -/
theorem Stage.next_count (hdf : c.huLogFree = true) (hon : l.loggingEnabled = true) {st : Stage}
    (hst : st.At i.ptr l) (hfree : i.event = .free)
    (hvalid : logIsValidCallstack c i.callstack false = true) :
    (logNext c l i).totalInvalidDeallocCount =
      l.totalInvalidDeallocCount + if st = .freed then 1 else 0 := by
  rw [logNext_free hon hfree, logFree_count]
  cases st with
  | live =>
    obtain ⟨info, hinfo⟩ := exists_lookup hst.1
    simp [logFreeTables, hinfo]
  | freed =>
    obtain ⟨block, htables⟩ := Stage.freeTables_freed hdf hst i.callstack
    rw [htables, invalidDealloc_count block hvalid, if_pos rfl]
  | reported =>
    rw [Stage.freeTables_reported hdf hst]
    simp

end Tables

/-- **The stage after a run** of events that allocate nothing at the address is
the one its number of frees leads to. -/
theorem Stage.run {c : LogConfig} (hdf : c.huLogFree = true) {p : Nat} (mid : List LogInput) :
    ∀ (l : LogState) (n : Nat), l.loggingEnabled = true → (Stage.after n).At p l →
      (∀ i ∈ mid, i.ptr = p → i.event = .free) → (exec (logNext c) l mid).uncaught = false →
      (Stage.after (n + mid.countP fun i => i.ptr = p)).At p (exec (logNext c) l mid) := by
  induction mid with
  | nil => intro l n _ hst _ _; exact hst
  | cons i mid ih =>
    intro l n hon hst hmid hret
    have hrest := fun j hj => hmid j (List.mem_cons_of_mem i hj)
    have hon' := logNext_enabled (c := c) (i := i) hon
    have hcaught : (logNext c l i).uncaught = false := by
      cases hu : (logNext c l i).uncaught with
      | false => rfl
      | true =>
        rw [exec_cons, exec_uncaught mid _ hu] at hret
        exact absurd hret Bool.noConfusion
    rw [exec_cons] at hret ⊢
    by_cases hp : i.ptr = p
    · subst hp
      have hstep := Stage.next hdf hon hst (hmid i (List.mem_cons_self ..) rfl) hcaught
      have hfree : (Stage.after n).free = Stage.after (n + 1) := by
        match n with
        | 0 => rfl
        | 1 => rfl
        | n + 2 => rfl
      rw [hfree] at hstep
      have hgoal := ih (logNext c l i) (n + 1) hon' hstep hrest hret
      rw [List.countP_cons]
      simpa [Nat.add_assoc, Nat.add_comm 1] using hgoal
    · obtain ⟨ha, hf⟩ := logNext_tables_ne hp (c := c) (l := l)
      have hgoal := ih (logNext c l i) n hon' (Stage.congr hst ha hf) hrest hret
      rw [List.countP_cons]
      simpa [hp] using hgoal

/-! ## §2 Counts -/

/-- The free of a freed block is counted exactly if it is the second one: one
free of the block stands between its tracked allocation and this free, whatever
happens to other pointers. -/
theorem repeated_free_counted (c : LogConfig) (hdf : c.huLogFree = true)
    (before mid : List LogInput) (alloc again : LogInput) (halloc : alloc.Tracked c)
    (hmid : ∀ i ∈ mid, i.ptr = alloc.ptr → i.event = .free)
    (hfreed : ∃ i ∈ mid, i.ptr = alloc.ptr) (hagain : again.event = .free)
    (hptr : again.ptr = alloc.ptr) (hvalid : logIsValidCallstack c again.callstack false = true)
    (hreturned : (exec (logNext c) logStart (before ++ alloc :: mid)).uncaught = false) :
    let l := exec (logNext c) logStart (before ++ alloc :: mid)
    (logNext c l again).totalInvalidDeallocCount = l.totalInvalidDeallocCount + 1 ↔
      mid.countP (fun i => i.ptr = alloc.ptr) = 1 := by
  intro l
  have hkeep : c.keepsFreed = true := by rw [LogConfig.keepsFreed, hdf, Bool.or_true]
  have hon : (exec (logNext c) logStart before).loggingEnabled = true := exec_enabled before _ rfl
  have hlive := Stage.alloc hkeep hon halloc
  have hl : l = exec (logNext c) (logNext c (exec (logNext c) logStart before) alloc) mid := by
    show exec (logNext c) logStart (before ++ alloc :: mid) = _
    rw [exec_append, exec_cons]
  have hreturned : l.uncaught = false := hreturned
  rw [hl] at hreturned
  have hstage := Stage.run hdf mid _ 0 (logNext_enabled hon) hlive hmid hreturned
  rw [← hl, Nat.zero_add] at hstage
  have hon' : l.loggingEnabled = true := exec_enabled _ _ rfl
  rw [← hptr] at hstage ⊢
  have hcount := Stage.next_count hdf hon' hstage hagain hvalid
  have hpos : 0 < mid.countP fun i => i.ptr = again.ptr := by
    obtain ⟨i, hi, hip⟩ := hfreed
    rw [List.countP_pos_iff]
    exact ⟨i, hi, by rw [hip, hptr]; exact decide_eq_true rfl⟩
  rw [hcount]
  generalize mid.countP (fun i => i.ptr = again.ptr) = n at hpos ⊢
  match n with
  | 1 => simp [Stage.after]
  | n + 2 => simp [Stage.after]

/-- The double-free tool alone. -/
def doubleFreeLog : LogConfig := { plainLog with huLogFree := true }

/-- A block, freed twice, with another block in between. -/
theorem repeated_free_counted_twice :
    let before : List LogInput := [⟨.malloc, 64, 8, [1, 2]⟩, ⟨.malloc, 128, 3, [1, 2]⟩,
      ⟨.free, 64, 0, [1, 3]⟩, ⟨.free, 128, 0, [1, 3]⟩]
    let l := exec (logNext doubleFreeLog) logStart before
    (logNext doubleFreeLog l ⟨.free, 64, 0, [1, 3]⟩).totalInvalidDeallocCount =
      l.totalInvalidDeallocCount + 1 :=
  (repeated_free_counted doubleFreeLog rfl []
    [⟨.malloc, 128, 3, [1, 2]⟩, ⟨.free, 64, 0, [1, 3]⟩, ⟨.free, 128, 0, [1, 3]⟩]
    ⟨.malloc, 64, 8, [1, 2]⟩ ⟨.free, 64, 0, [1, 3]⟩ (by decide) (by decide) (by decide) rfl rfl
    (by decide) (by decide)).mpr (by decide)

/-- The third free of a block is not counted. -/
theorem third_free_uncounted :
    let freed : LogInput := ⟨.free, 64, 0, [1, 3]⟩
    let once := exec (logNext doubleFreeLog) logStart [⟨.malloc, 64, 8, [1, 2]⟩, freed]
    let twice := logNext doubleFreeLog once freed
    let thrice := logNext doubleFreeLog twice freed
    LogInput.Tracked doubleFreeLog ⟨.malloc, 64, 8, [1, 2]⟩ ∧
      logIsValidCallstack doubleFreeLog [1, 3] false = true ∧
      twice.totalInvalidDeallocCount = once.totalInvalidDeallocCount + 1 ∧
      twice.uncaught = false ∧
      thrice.totalInvalidDeallocCount = twice.totalInvalidDeallocCount := by
  decide

end Heapusage
