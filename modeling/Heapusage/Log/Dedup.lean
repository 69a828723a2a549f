/-
Heapusage.Log.Dedup — the reports of invalid deallocations and their keys.

§1 Audits — a log next to the callstacks of the invalid deallocations so far,
            which nothing in the log reads (`Audit`).
§2 Events — an event that is no invalid deallocation changes nothing that is
            about them (`logNext_reports`); what one that is does
            (`logFree_reported`, `logFree_throws`).
§3 Runs   — set of keys, total and written reports agree as long as every
            backtrace of an invalid deallocation has a frame
            (`invalid_deallocs_deduplicated_iff`).
-/
import Heapusage.Log.Repeats

namespace Heapusage

open Runs Tables

/-! ## §1 Audits -/

/-- The event frees a pointer that only `freed_allocations` lists. -/
def LogState.FreesAgain (l : LogState) (i : LogInput) : Prop :=
  i.event = .free ∧ i.ptr ∉ l.allocations ∧ i.ptr ∈ l.freedAllocations

instance (l : LogState) (i : LogInput) : Decidable (l.FreesAgain i) :=
  inferInstanceAs (Decidable (_ ∧ _ ∧ _))

/-- A log with the callstacks of the invalid deallocations so far, newest first. -/
structure Audit where
  log : LogState
  invalid : List Callstack

def auditStart : Audit := ⟨logStart, []⟩

def Audit.next (c : LogConfig) (A : Audit) (i : LogInput) : Audit where
  log := logNext c A.log i
  invalid := if A.log.FreesAgain i then i.callstack :: A.invalid else A.invalid

/-- The distinct callstacks among them, without frame 0. -/
def Audit.keys (A : Audit) : Finset Callstack := (A.invalid.map List.tail).toFinset

def LogEntry.isInvalidDeallocation : LogEntry → Bool
  | .invalidDeallocation _ _ _ => true
  | _ => false

/-- How many `Invalid deallocation` reports the log file has. -/
def LogState.reports (l : LogState) : Nat := l.logFile.countP LogEntry.isInvalidDeallocation

/-- What is promised about the invalid deallocations so far. -/
structure Deduplicated (c : LogConfig) (A : Audit) : Prop where
  /-- each was processed to the end -/
  returned : A.log.uncaught = false
  keys : A.log.reportedInvalidDeallocCallstacks = A.keys
  unique_le : A.keys.card ≤ A.log.totalInvalidDeallocCount.toNat
  /-- the figures `log_summary` prints, if it prints any -/
  printed : ∀ ondemand evicted order unique total accesses totalAccesses,
    (summaryOf c ondemand evicted order A.log).errors =
        some (unique, total, accesses, totalAccesses) →
      unique = A.keys.card ∧ unique ≤ total.toNat
  reports : A.log.reports =
    if c.huLogRepeat then A.log.totalInvalidDeallocCount.toNat else A.keys.card

/-! ## §2 Events -/

/-- What of the log is about invalid deallocations. -/
structure Reporting where
  keys : Finset Callstack
  total : UInt64
  logFile : List LogEntry
  uncaught : Bool

def LogState.reporting (l : LogState) : Reporting where
  keys := l.reportedInvalidDeallocCallstacks
  total := l.totalInvalidDeallocCount
  logFile := l.logFile
  uncaught := l.uncaught

section Events

variable {c : LogConfig} {l : LogState} {i : LogInput}

theorem logMalloc_reporting (q n : Nat) (cs : Callstack) :
    (logMalloc c q n cs l).reporting = l.reporting := by
  unfold logMalloc
  simp only
  split <;> split <;> rfl

/-- Any other event leaves it alone. -/
theorem logNext_reporting (hon : l.loggingEnabled = true) (hret : l.uncaught = false)
    (hi : ¬ l.FreesAgain i) : (logNext c l i).reporting = l.reporting := by
  cases hevent : i.event with
  | malloc =>
    rw [logNext_malloc hon hevent]
    exact logMalloc_reporting ..
  | free =>
    rw [logNext_free hon hevent]
    cases hlook : l.allocations.lookup i.ptr with
    | some info =>
      rw [logFree_listed c i.ptr i.callstack l hlook hret]
      rfl
    | none =>
      have hq := not_mem_of_lookup_none hlook
      rw [logFree_unlisted c i.ptr i.callstack l hq (fun hf => hi ⟨hevent, hq, hf⟩) hret]
      rfl

/-- An invalid deallocation with an empty backtrace does not return. -/
theorem logNext_throws (hon : l.loggingEnabled = true) (hret : l.uncaught = false)
    (hdf : c.huLogFree = true) (hi : l.FreesAgain i) (hcs : i.callstack = []) :
    (logNext c l i).uncaught = true := by
  obtain ⟨hevent, hq⟩ := hi
  obtain ⟨block, htables⟩ := Stage.freeTables_freed hdf hq i.callstack
  have hthrows : (logFreeTables c i.ptr i.callstack l).uncaught = true := by
    rw [htables, invalidDealloc_throws c i.ptr i.callstack l block hret, hcs]
    rfl
  rw [logNext_free hon hevent, logFree_eq, if_pos hthrows]
  exact hthrows

/-- One with a frame is counted, and reported if its key is new or repeats are
wanted. -/
theorem logNext_reported (hon : l.loggingEnabled = true) (hret : l.uncaught = false)
    (hdf : c.huLogFree = true) (hwritable : c.logWritable = true)
    (hvalid : logIsValidCallstack c i.callstack false = true) (hi : l.FreesAgain i)
    (hcs : i.callstack ≠ []) : ∃ block, (logNext c l i).reporting =
      { keys := insert i.callstack.tail l.reportedInvalidDeallocCallstacks
        total := l.totalInvalidDeallocCount + 1
        logFile :=
          if i.callstack.tail ∉ l.reportedInvalidDeallocCallstacks ∨ c.huLogRepeat then
            .invalidDeallocation i.callstack i.ptr block :: l.logFile
          else l.logFile
        uncaught := false } := by
  obtain ⟨hevent, hq⟩ := hi
  obtain ⟨block, htables⟩ := Stage.freeTables_freed hdf hq i.callstack
  refine ⟨block, ?_⟩
  have hreturns := invalidDealloc_throws c i.ptr i.callstack l block hret
  rw [logNext_free hon hevent, logFree_eq, htables, hreturns, if_neg (by simp [hcs])]
  simp [LogState.reporting, invalidDealloc, reportInvalidDealloc, hvalid, hcs, hret, hwritable]

end Events

/-! ## §3 Runs -/

/-- An invalid deallocation has a frame in its backtrace, and the count of them
has room for it. -/
def Audit.Countable (A : Audit) (i : LogInput) : Prop :=
  A.log.FreesAgain i → i.callstack ≠ [] ∧ A.log.totalInvalidDeallocCount.toNat + 1 < 2 ^ 64

instance (A : Audit) (i : LogInput) : Decidable (A.Countable i) :=
  inferInstanceAs (Decidable (_ → _ ∧ _))

/-- The invariant of a run. -/
structure AuditInv (c : LogConfig) (A : Audit) : Prop where
  enabled : A.log.loggingEnabled = true
  total : A.log.totalInvalidDeallocCount.toNat = A.invalid.length
  good : Deduplicated c A

namespace AuditInv

variable {c : LogConfig} {A : Audit} {i : LogInput}

/-- The printed figures are those of the state. -/
theorem deduplicated (hret : A.log.uncaught = false)
    (hkeys : A.log.reportedInvalidDeallocCallstacks = A.keys)
    (hle : A.keys.card ≤ A.log.totalInvalidDeallocCount.toNat)
    (hreports : A.log.reports =
      if c.huLogRepeat then A.log.totalInvalidDeallocCount.toNat else A.keys.card) :
    Deduplicated c A := by
  refine ⟨hret, hkeys, hle, ?_, hreports⟩
  intro ondemand evicted order unique total accesses totalAccesses herrors
  simp only [summaryOf] at herrors
  split at herrors
  · have hfigures := Option.some.inj herrors
    simp only [Prod.mk.injEq] at hfigures
    obtain ⟨rfl, rfl, -⟩ := hfigures
    rw [hkeys]
    exact ⟨rfl, hle⟩
  · cases herrors

theorem start : AuditInv c auditStart := by
  refine ⟨rfl, rfl, deduplicated rfl rfl (Nat.le_refl _) ?_⟩
  split <;> rfl

/-- An event that is no invalid deallocation. -/
theorem next_other (h : AuditInv c A) (hi : ¬ A.log.FreesAgain i) : AuditInv c (A.next c i) := by
  have hsame := logNext_reporting (c := c) h.enabled h.good.returned hi
  have hkeys := congrArg Reporting.keys hsame
  have htotal := congrArg Reporting.total hsame
  have hfile := congrArg Reporting.logFile hsame
  have hret := congrArg Reporting.uncaught hsame
  simp only [LogState.reporting] at hkeys htotal hfile hret
  have hinvalid : (A.next c i).invalid = A.invalid := if_neg hi
  have hnext : (A.next c i).keys = A.keys := by rw [Audit.keys, hinvalid, Audit.keys]
  refine ⟨logNext_enabled h.enabled, ?_, deduplicated (hret.trans h.good.returned) ?_ ?_ ?_⟩
  · rw [hinvalid, Audit.next, htotal, h.total]
  · rw [hnext, Audit.next, hkeys, h.good.keys]
  · rw [hnext, Audit.next, htotal]
    exact h.good.unique_le
  · rw [hnext, LogState.reports, Audit.next, hfile, htotal]
    exact h.good.reports

/-- An invalid deallocation with a frame in its backtrace. -/
theorem next_invalid (h : AuditInv c A) (hdf : c.huLogFree = true)
    (hwritable : c.logWritable = true) (hvalid : logIsValidCallstack c i.callstack false = true)
    (hi : A.log.FreesAgain i) (hcs : i.callstack ≠ [])
    (hroom : A.log.totalInvalidDeallocCount.toNat + 1 < 2 ^ 64) : AuditInv c (A.next c i) := by
  obtain ⟨block, hreported⟩ :=
    logNext_reported h.enabled h.good.returned hdf hwritable hvalid hi hcs
  have hkeys := congrArg Reporting.keys hreported
  have htotal := congrArg Reporting.total hreported
  have hfile := congrArg Reporting.logFile hreported
  have hret := congrArg Reporting.uncaught hreported
  simp only [LogState.reporting] at hkeys htotal hfile hret
  rw [h.good.keys] at hkeys hfile
  have hinvalid : (A.next c i).invalid = i.callstack :: A.invalid := if_pos hi
  have hnext : (A.next c i).keys = insert i.callstack.tail A.keys := by
    rw [Audit.keys, hinvalid, List.map_cons, List.toFinset_cons, Audit.keys]
  have hcount : (logNext c A.log i).totalInvalidDeallocCount.toNat =
      A.log.totalInvalidDeallocCount.toNat + 1 := by
    rw [htotal, UInt64.toNat_add]
    exact Nat.mod_eq_of_lt hroom
  have hle := h.good.unique_le
  have hreports : A.log.logFile.countP LogEntry.isInvalidDeallocation =
      if c.huLogRepeat then A.log.totalInvalidDeallocCount.toNat else A.keys.card :=
    h.good.reports
  refine ⟨logNext_enabled h.enabled, ?_, deduplicated hret ?_ ?_ ?_⟩
  · rw [hinvalid, List.length_cons, ← h.total]
    exact hcount
  · rw [hnext]
    exact hkeys
  · rw [hnext]
    refine (Finset.card_insert_le _ _).trans ?_
    rw [Audit.next, hcount]
    omega
  · rw [hnext, LogState.reports, Audit.next, hfile, hcount]
    by_cases hnew : i.callstack.tail ∈ A.keys
    · -- a repeat: written again only if that is wanted
      rw [Finset.card_insert_of_mem hnew]
      cases hrepeat : c.huLogRepeat with
      | true =>
        rw [hrepeat] at hreports
        simp [List.countP_cons, LogEntry.isInvalidDeallocation, hreports]
      | false =>
        rw [hrepeat] at hreports
        simp [hnew, hreports]
    · rw [Finset.card_insert_of_notMem hnew, if_pos (.inl hnew), List.countP_cons, hreports]
      split <;> rfl

/-- **What one event does to the promise.** -/
theorem next_iff (h : AuditInv c A) (hdf : c.huLogFree = true)
    (hwritable : c.logWritable = true) (hvalid : logIsValidCallstack c i.callstack false = true) :
    Deduplicated c (A.next c i) ↔ A.Countable i := by
  constructor
  · intro hgood hi
    have hcs : i.callstack ≠ [] := by
      intro hcs
      have hthrown := logNext_throws h.enabled h.good.returned hdf hi hcs
      exact absurd (hthrown.symm.trans hgood.returned) Bool.noConfusion
    refine ⟨hcs, ?_⟩
    -- a count that wraps to zero is below the number of keys
    by_contra hfull
    have hlt := UInt64.toNat_lt A.log.totalInvalidDeallocCount
    obtain ⟨block, hreported⟩ :=
      logNext_reported h.enabled h.good.returned hdf hwritable hvalid hi hcs
    have htotal : (logNext c A.log i).totalInvalidDeallocCount =
        A.log.totalInvalidDeallocCount + 1 := congrArg Reporting.total hreported
    have hzero : (logNext c A.log i).totalInvalidDeallocCount.toNat = 0 := by
      rw [htotal, UInt64.toNat_add, UInt64.toNat_one]
      omega
    have hpos : 0 < (A.next c i).keys.card := by
      refine Finset.card_pos.mpr ⟨i.callstack.tail, ?_⟩
      simp [Audit.keys, Audit.next, hi]
    have hle : (A.next c i).keys.card ≤ (logNext c A.log i).totalInvalidDeallocCount.toNat :=
      hgood.unique_le
    omega
  · intro hcond
    by_cases hi : A.log.FreesAgain i
    · obtain ⟨hcs, hroom⟩ := hcond hi
      exact (h.next_invalid hdf hwritable hvalid hi hcs hroom).good
    · exact (h.next_other hi).good

theorem next (h : AuditInv c A) (hdf : c.huLogFree = true) (hwritable : c.logWritable = true)
    (hvalid : logIsValidCallstack c i.callstack false = true) (hcond : A.Countable i) :
    AuditInv c (A.next c i) := by
  by_cases hi : A.log.FreesAgain i
  · obtain ⟨hcs, hroom⟩ := hcond hi
    exact h.next_invalid hdf hwritable hvalid hi hcs hroom
  · exact h.next_other hi

end AuditInv

/-- **Keys, total and reports of invalid deallocations agree** after every
event of a run exactly if each of its invalid deallocations has a frame in its
backtrace, and the count of them does not wrap. -/
theorem invalid_deallocs_deduplicated_iff (c : LogConfig) (hdf : c.huLogFree = true)
    (hwritable : c.logWritable = true) (is : List LogInput)
    (hvalid : ∀ i ∈ is, logIsValidCallstack c i.callstack false = true) :
    Along (Audit.next c) (fun A i => Deduplicated c (A.next c i)) auditStart is ↔
      Along (Audit.next c) Audit.Countable auditStart is := by
  have hstep : ∀ A i, AuditInv c A → logIsValidCallstack c i.callstack false = true →
      A.Countable i → AuditInv c (A.next c i) :=
    fun _ _ h hi hcond => h.next hdf hwritable hi hcond
  have hiff : ∀ A i, AuditInv c A → logIsValidCallstack c i.callstack false = true →
      (Deduplicated c (A.next c i) ↔ A.Countable i) :=
    fun _ _ h hi => h.next_iff hdf hwritable hi
  exact Along.exact hstep hiff is auditStart .start (along_of_forall is hvalid _)

/-- Two frees too many at one place, and one at another. -/
theorem invalid_deallocs_deduplicated_thrice :
    let is : List LogInput := [⟨.malloc, 64, 8, [1, 2]⟩, ⟨.free, 64, 0, [1, 3]⟩,
      ⟨.free, 64, 0, [1, 4]⟩, ⟨.malloc, 64, 8, [1, 2]⟩, ⟨.free, 64, 0, [1, 3]⟩,
      ⟨.free, 64, 0, [7, 4]⟩, ⟨.malloc, 64, 8, [1, 2]⟩, ⟨.free, 64, 0, [1, 3]⟩,
      ⟨.free, 64, 0, [1]⟩]
    Along (Audit.next doubleFreeLog) (fun A i => Deduplicated doubleFreeLog
      (A.next doubleFreeLog i)) auditStart is := by
  intro is
  exact (invalid_deallocs_deduplicated_iff doubleFreeLog rfl rfl is (by decide)).mpr (by decide)

/-- An empty backtrace, which `log_print_callstack` has a line for, throws in
the construction of the key: nothing is reported, and the call never returns. -/
theorem empty_backtrace_throws :
    let is : List LogInput := [⟨.malloc, 64, 8, [1, 2]⟩, ⟨.free, 64, 0, [1, 3]⟩,
      ⟨.free, 64, 0, []⟩]
    let A := exec (Audit.next doubleFreeLog) auditStart is
    (∀ i ∈ is, logIsValidCallstack doubleFreeLog i.callstack false = true) ∧
      A.invalid = [[]] ∧ A.log.uncaught = true ∧ A.log.reports = 0 ∧
      ¬ Along (Audit.next doubleFreeLog) (fun A i => Deduplicated doubleFreeLog
        (A.next doubleFreeLog i)) auditStart is := by
  intro is A
  have hthrown : A.log.uncaught = true := by decide
  refine ⟨by decide, by decide, hthrown, by decide, ?_⟩
  rintro ⟨-, -, hgood, -⟩
  exact absurd (hthrown.symm.trans hgood.returned) Bool.noConfusion

end Heapusage
