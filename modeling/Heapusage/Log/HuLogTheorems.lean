/-
Heapusage.Log.HuLogTheorems — what one log event does to the tables and
the counters.

The free event is taken apart into what it does to the tables
(`logFreeTables`) and the count of frees (`logFree_eq`).

§1 Sizes    — the map from pointers to sizes that `allocations` holds
              (`LogState.sizeAt`) after an event.
§2 Freed    — the same for `freed_allocations`, and when the invalid
              deallocation branch is not taken.
§3 Evicted  — the relation between the log before and after an allocator
              call: only records of freed blocks may have gone.
§4 Accounts — the tables and counters as one value (`LogState.accounts`).
§5 Keys     — with a tool that keeps freed blocks on, a pointer is a key of
              one of the two tables only (`LogState.Keyed`).
-/
import Heapusage.Log.HuLog

namespace Heapusage

open Tables

/-- The size `allocations` holds for a pointer. -/
def LogState.sizeAt (l : LogState) (p : Nat) : Option Nat :=
  (l.allocations.lookup p).map HuAllocinfoT.size

theorem LogState.sizeAt_eq_none {l : LogState} {p : Nat} :
    l.sizeAt p = none ↔ p ∉ l.allocations := by
  rw [LogState.sizeAt, Option.map_eq_none_iff, AList.lookup_eq_none]

/-- One of the tools that keep freed blocks is on. -/
def LogConfig.keepsFreed (c : LogConfig) : Bool := c.huUseafterfree || c.huLogFree

/-- The record a free of a tracked block leaves. -/
def freedRecord (c : LogConfig) (cs : Callstack) (info : HuAllocinfoT) : HuAllocinfoT :=
  { info with freeCallstack := if c.keepsFreed then cs else info.freeCallstack }

/-- The free event up to the count of frees. -/
def logFreeTables (c : LogConfig) (ptr : Nat) (callstack : Callstack) (l : LogState) : LogState :=
  match l.allocations.lookup ptr with
  | some info =>
      { l with
        allocinfoCurrentAllocBytes := l.allocinfoCurrentAllocBytes - UInt64.ofNat info.size
        freedAllocations :=
          if c.keepsFreed then insertNew ptr (freedRecord c callstack info) l.freedAllocations
          else l.freedAllocations
        allocations := l.allocations.erase ptr }
  | none =>
      if c.huLogFree then
        match l.freedAllocations.lookup ptr with
        | some block => invalidDealloc c ptr block callstack l
        | none => l
      else l

/-! ## §1 Sizes -/

section Events

variable (c : LogConfig) (q n : Nat) (cs : Callstack) (l : LogState)

theorem logMalloc_allocations :
    (logMalloc c q n cs l).allocations =
      if c.huLogMinleak ≤ n then
        l.allocations.insert q
          { ptr := q, size := n, callstack := cs, freeCallstack := [], count := 1 }
      else l.allocations := by
  unfold logMalloc
  simp only
  split <;> split <;> rfl

/-- An allocation of at least the minimum size is listed under its pointer. -/
theorem logMalloc_sizeAt (p : Nat) :
    (logMalloc c q n cs l).sizeAt p =
      if c.huLogMinleak ≤ n ∧ p = q then some n else l.sizeAt p := by
  unfold LogState.sizeAt
  rw [logMalloc_allocations]
  by_cases hn : c.huLogMinleak ≤ n
  · by_cases hp : p = q
    · subst hp
      simp [hn, AList.lookup_insert]
    · simp [hn, hp, AList.lookup_insert_ne hp]
  · simp [hn]

/-- What a report of an invalid deallocation may change. -/
theorem invalidDealloc_frame (block : HuAllocinfoT) :
    invalidDealloc c q block cs l = { l with
      freedAllocations := (invalidDealloc c q block cs l).freedAllocations
      totalInvalidDeallocCount := (invalidDealloc c q block cs l).totalInvalidDeallocCount
      reportedInvalidDeallocCallstacks :=
        (invalidDealloc c q block cs l).reportedInvalidDeallocCallstacks
      logFile := (invalidDealloc c q block cs l).logFile
      uncaught := (invalidDealloc c q block cs l).uncaught } := by
  unfold invalidDealloc
  simp only
  split <;> split <;> (try split) <;> rfl

theorem invalidDealloc_allocations (block : HuAllocinfoT) :
    (invalidDealloc c q block cs l).allocations = l.allocations := by
  rw [invalidDealloc_frame]

theorem logFree_eq :
    logFree c q cs l =
      if (logFreeTables c q cs l).uncaught then logFreeTables c q cs l
      else { logFreeTables c q cs l with
        allocinfoTotalFrees := (logFreeTables c q cs l).allocinfoTotalFrees + 1 } := rfl

theorem logFreeTables_allocations :
    (logFreeTables c q cs l).allocations = l.allocations.erase q := by
  unfold logFreeTables
  cases hq : l.allocations.lookup q with
  | some info => rfl
  | none =>
    rw [erase_of_not_mem (not_mem_of_lookup_none hq)]
    simp only
    split
    · split
      · exact invalidDealloc_allocations ..
      · rfl
    · rfl

theorem logFree_allocations : (logFree c q cs l).allocations = l.allocations.erase q := by
  rw [logFree_eq, ← logFreeTables_allocations c q cs l]
  split <;> rfl

/-- A freed pointer is listed no more. -/
theorem logFree_sizeAt (p : Nat) :
    (logFree c q cs l).sizeAt p = if p = q then none else l.sizeAt p := by
  unfold LogState.sizeAt
  rw [logFree_allocations]
  by_cases hp : p = q
  · subst hp
    simp
  · simp [hp, AList.lookup_erase_ne hp]

/-! ## §2 Freed -/

theorem logMalloc_freed :
    (logMalloc c q n cs l).freedAllocations =
      if c.keepsFreed then l.freedAllocations.erase q else l.freedAllocations := by
  unfold logMalloc LogConfig.keepsFreed
  simp only
  split <;> split <;> rfl

theorem logMalloc_invalidCount :
    (logMalloc c q n cs l).totalInvalidDeallocCount = l.totalInvalidDeallocCount := by
  unfold logMalloc
  simp only
  split <;> split <;> rfl

theorem logMalloc_uncaught : (logMalloc c q n cs l).uncaught = l.uncaught := by
  unfold logMalloc
  simp only
  split <;> split <;> rfl

@[simp] theorem logMalloc_enabled :
    (logMalloc c q n cs l).loggingEnabled = l.loggingEnabled := by
  unfold logMalloc
  simp only
  split <;> split <;> rfl

@[simp] theorem invalidDealloc_enabled (block : HuAllocinfoT) :
    (invalidDealloc c q block cs l).loggingEnabled = l.loggingEnabled := by
  rw [invalidDealloc_frame]

theorem logFreeTables_enabled :
    (logFreeTables c q cs l).loggingEnabled = l.loggingEnabled := by
  unfold logFreeTables
  split
  · rfl
  · split
    · split
      · exact invalidDealloc_enabled ..
      · rfl
    · rfl

@[simp] theorem logFree_enabled : (logFree c q cs l).loggingEnabled = l.loggingEnabled := by
  rw [logFree_eq, ← logFreeTables_enabled c q cs l]
  split <;> rfl

/-- A free of a listed pointer, all of it. -/
theorem logFree_listed {info : HuAllocinfoT} (hq : l.allocations.lookup q = some info)
    (hret : l.uncaught = false) :
    logFree c q cs l = { l with
      allocinfoTotalFrees := l.allocinfoTotalFrees + 1
      allocinfoCurrentAllocBytes := l.allocinfoCurrentAllocBytes - UInt64.ofNat info.size
      allocations := l.allocations.erase q
      freedAllocations :=
        if c.keepsFreed then insertNew q (freedRecord c cs info) l.freedAllocations
        else l.freedAllocations } := by
  unfold logFree
  simp only [hq, hret, Bool.false_eq_true, if_false]
  rfl

/-- A free of a pointer that neither table lists only counts. -/
theorem logFree_unlisted (hq : q ∉ l.allocations) (hfreed : q ∉ l.freedAllocations)
    (hret : l.uncaught = false) :
    logFree c q cs l = { l with allocinfoTotalFrees := l.allocinfoTotalFrees + 1 } := by
  unfold logFree
  simp only [AList.lookup_eq_none.mpr hq, AList.lookup_eq_none.mpr hfreed, hret, ite_self,
    Bool.false_eq_true, if_false]

end Events

section Totals

variable (c : LogConfig) (q n : Nat) (cs : Callstack) (l : LogState)

theorem logMalloc_totalFrees :
    (logMalloc c q n cs l).allocinfoTotalFrees = l.allocinfoTotalFrees := by
  unfold logMalloc
  simp only
  split <;> split <;> rfl

theorem logMalloc_totalAllocs (hn : c.huLogMinleak ≤ n) :
    (logMalloc c q n cs l).allocinfoTotalAllocs = l.allocinfoTotalAllocs + 1 := by
  unfold logMalloc
  simp only [hn, if_true]
  split <;> rfl

/-- An allocation below the minimum size can only take a freed record away. -/
theorem logMalloc_small (hn : ¬ c.huLogMinleak ≤ n) :
    logMalloc c q n cs l =
      if c.keepsFreed then { l with freedAllocations := l.freedAllocations.erase q } else l := by
  unfold logMalloc LogConfig.keepsFreed
  simp only [hn, if_false]

theorem invalidDealloc_totalFrees (block : HuAllocinfoT) :
    (invalidDealloc c q block cs l).allocinfoTotalFrees = l.allocinfoTotalFrees := by
  rw [invalidDealloc_frame]

theorem logFreeTables_totalFrees :
    (logFreeTables c q cs l).allocinfoTotalFrees = l.allocinfoTotalFrees := by
  unfold logFreeTables
  split
  · rfl
  · split
    · split
      · exact invalidDealloc_totalFrees ..
      · rfl
    · rfl

/-- Every free event that returns is counted. -/
theorem logFree_totalFrees (hret : (logFree c q cs l).uncaught = false) :
    (logFree c q cs l).allocinfoTotalFrees = l.allocinfoTotalFrees + 1 := by
  rw [logFree_eq] at hret ⊢
  split at hret
  · rename_i h
    rw [h] at hret
    exact absurd hret (by simp)
  · rename_i h
    rw [if_neg h, ← logFreeTables_totalFrees c q cs l]

theorem logFree_freed :
    (logFree c q cs l).freedAllocations = (logFreeTables c q cs l).freedAllocations := by
  rw [logFree_eq]
  split <;> rfl

/-- The freed table after the free of a listed pointer. -/
theorem logFree_freed_listed {info : HuAllocinfoT} (hq : l.allocations.lookup q = some info) :
    (logFree c q cs l).freedAllocations =
      if c.keepsFreed then insertNew q (freedRecord c cs info) l.freedAllocations
      else l.freedAllocations := by
  rw [logFree_freed]
  simp only [logFreeTables, hq]

/-- A report takes away the record of the pointer, unless it throws. -/
theorem invalidDealloc_freedAllocations (block : HuAllocinfoT) :
    (invalidDealloc c q block cs l).freedAllocations =
      if (invalidDealloc c q block cs l).uncaught then l.freedAllocations
      else l.freedAllocations.erase q := by
  unfold invalidDealloc
  cases logIsValidCallstack c cs false with
  | true =>
    by_cases hcs : cs = []
    · simp [hcs]
    · simp only [hcs, if_true, if_false, reportInvalidDealloc]
      split <;> simp_all
  | false =>
    simp only [Bool.false_eq_true, if_false]
    split <;> simp_all

/-- No object file is known for an empty callstack, so it counts as valid. -/
theorem logIsValidCallstack_nil (isAlloc : Bool) : logIsValidCallstack c [] isAlloc = true := by
  simp [logIsValidCallstack, originatingObjfile]

/-- A report throws exactly if the backtrace is empty. -/
theorem invalidDealloc_throws (block : HuAllocinfoT) (hret : l.uncaught = false) :
    (invalidDealloc c q block cs l).uncaught = decide (cs = []) := by
  unfold invalidDealloc
  by_cases hcs : cs = []
  · subst hcs
    simp [logIsValidCallstack_nil]
  · cases logIsValidCallstack c cs false with
    | true => simp [hcs, reportInvalidDealloc, hret]
    | false => simp [hcs, hret]

theorem invalidDealloc_freed (block : HuAllocinfoT) {k : Nat} {r : HuAllocinfoT}
    (h : (invalidDealloc c q block cs l).freedAllocations.lookup k = some r) :
    l.freedAllocations.lookup k = some r := by
  rw [invalidDealloc_freedAllocations] at h
  split at h
  · exact h
  · exact (lookup_erase_eq_some.mp h).2

/-- The free of a pointer that is not listed adds no freed record. -/
theorem logFree_freed_unlisted (hq : q ∉ l.allocations) {k : Nat} {r : HuAllocinfoT}
    (h : (logFree c q cs l).freedAllocations.lookup k = some r) :
    l.freedAllocations.lookup k = some r := by
  rw [logFree_freed] at h
  simp only [logFreeTables, AList.lookup_eq_none.mpr hq] at h
  split at h
  · split at h
    · exact invalidDealloc_freed c q cs l _ h
    · exact h
  · exact h

/-- Freed records of other pointers stay as they were. -/
theorem logFree_freed_lookup_ne {k : Nat} (hk : k ≠ q) :
    (logFree c q cs l).freedAllocations.lookup k = l.freedAllocations.lookup k := by
  cases hq : l.allocations.lookup q with
  | some info =>
    rw [logFree_freed_listed c q cs l hq]
    split
    · exact lookup_insertNew_ne hk
    · rfl
  | none =>
    rw [logFree_freed]
    simp only [logFreeTables, hq]
    split
    · split
      · rw [invalidDealloc_freedAllocations]
        split
        · rfl
        · exact AList.lookup_erase_ne hk
      · rfl
    · rfl

theorem logFree_freed_ne {k : Nat} (hk : k ≠ q) {r : HuAllocinfoT}
    (h : (logFree c q cs l).freedAllocations.lookup k = some r) :
    l.freedAllocations.lookup k = some r := by
  rwa [logFree_freed_lookup_ne c q cs l hk] at h

end Totals

/-! ## §3 Evicted -/

/-- Between `l` and `l'` some freed records have gone and nothing else has changed. -/
structure LogState.Evicted (l l' : LogState) : Prop where
  rest : l' = { l with freedAllocations := l'.freedAllocations }
  freed : ∀ p info, l'.freedAllocations.lookup p = some info →
    l.freedAllocations.lookup p = some info

namespace LogState.Evicted

variable {l l' l'' : LogState}

theorem refl (l : LogState) : l.Evicted l := ⟨rfl, fun _ _ h => h⟩

theorem trans (h : l.Evicted l') (h' : l'.Evicted l'') : l.Evicted l'' := by
  refine ⟨?_, fun p info hp => h.freed p info (h'.freed p info hp)⟩
  rw [h'.rest, h.rest]

theorem remove (c : LogConfig) (p : Nat) (l : LogState) :
    l.Evicted (huLogRemoveFreedAllocation c p l) := by
  unfold huLogRemoveFreedAllocation
  split
  · exact refl l
  · exact ⟨rfl, fun k info hk => (lookup_erase_eq_some.mp hk).2⟩

theorem not_mem (h : l.Evicted l') {p : Nat} (hp : p ∉ l.freedAllocations) :
    p ∉ l'.freedAllocations := by
  intro hmem
  obtain ⟨info, hinfo⟩ := exists_lookup hmem
  exact hp (mem_of_lookup (h.freed p info hinfo))

theorem allocations (h : l.Evicted l') : l'.allocations = l.allocations := by rw [h.rest]

theorem enabled (h : l.Evicted l') : l'.loggingEnabled = l.loggingEnabled := by rw [h.rest]

theorem invalidCount (h : l.Evicted l') :
    l'.totalInvalidDeallocCount = l.totalInvalidDeallocCount := by rw [h.rest]

theorem uncaught (h : l.Evicted l') : l'.uncaught = l.uncaught := by rw [h.rest]

theorem sizeAt (h : l.Evicted l') (p : Nat) : l'.sizeAt p = l.sizeAt p := by
  rw [LogState.sizeAt, LogState.sizeAt, h.allocations]

end LogState.Evicted

/-! ## §4 Accounts -/

/-- The two tables, as maps, and the five figures of the accounting. -/
structure Accounts where
  allocations : Nat → Option HuAllocinfoT
  freedAllocations : Nat → Option HuAllocinfoT
  totalAllocs : UInt64
  totalFrees : UInt64
  totalAllocBytes : UInt64
  currentAllocBytes : UInt64
  peakAllocBytes : UInt64

/-- What the log has accounted for. -/
def LogState.accounts (l : LogState) : Accounts where
  allocations p := l.allocations.lookup p
  freedAllocations p := l.freedAllocations.lookup p
  totalAllocs := l.allocinfoTotalAllocs
  totalFrees := l.allocinfoTotalFrees
  totalAllocBytes := l.allocinfoTotalAllocBytes
  currentAllocBytes := l.allocinfoCurrentAllocBytes
  peakAllocBytes := l.allocinfoPeakAllocBytes

/-! ## §5 Keys -/

/-- Records stand under their own pointers, and in one table only. -/
structure LogState.Keyed (l : LogState) : Prop where
  listed : ∀ k r, l.allocations.lookup k = some r → r.ptr = k
  freed : ∀ k r, l.freedAllocations.lookup k = some r → r.ptr = k
  apart : ∀ k ∈ l.allocations, k ∉ l.freedAllocations

namespace LogState.Keyed

variable {c : LogConfig} {l l' : LogState}

theorem evicted (h : l.Keyed) (hev : l.Evicted l') : l'.Keyed where
  listed k r hk := h.listed k r (by rwa [hev.allocations] at hk)
  freed k r hk := h.freed k r (hev.freed k r hk)
  apart k hk := hev.not_mem (h.apart k (by rwa [hev.allocations] at hk))

theorem logFree (h : l.Keyed) (q : Nat) (cs : Callstack) :
    (Heapusage.logFree c q cs l).Keyed := by
  have hsub : ∀ k r, (Heapusage.logFree c q cs l).allocations.lookup k = some r →
      k ≠ q ∧ l.allocations.lookup k = some r := by
    intro k r hk
    rw [logFree_allocations] at hk
    exact lookup_erase_eq_some.mp hk
  refine ⟨fun k r hk => h.listed k r (hsub k r hk).2, ?_, ?_⟩
  · intro k r hk
    by_cases hkq : k = q
    · subst hkq
      cases hlook : l.allocations.lookup k with
      | none =>
        exact h.freed k r (logFree_freed_unlisted c k cs l (not_mem_of_lookup_none hlook) hk)
      | some info =>
        rw [logFree_freed_listed c k cs l hlook] at hk
        split at hk
        · rw [insertNew_of_not_mem (h.apart k (mem_of_lookup hlook)), AList.lookup_insert] at hk
          cases hk
          exact h.listed k info hlook
        · exact h.freed k r hk
    · exact h.freed k r (logFree_freed_ne c q cs l hkq hk)
  · intro k hk hfreed
    obtain ⟨r, hr⟩ := exists_lookup hk
    obtain ⟨d, hd⟩ := exists_lookup hfreed
    obtain ⟨hkq, hr⟩ := hsub k r hr
    exact h.apart k (mem_of_lookup hr) (mem_of_lookup (logFree_freed_ne c q cs l hkq hd))

theorem logMalloc (h : l.Keyed) (hkeep : c.keepsFreed = true) (q n : Nat) (cs : Callstack) :
    (Heapusage.logMalloc c q n cs l).Keyed := by
  refine ⟨?_, ?_, ?_⟩
  · intro k r hk
    rw [logMalloc_allocations] at hk
    split at hk
    · rcases lookup_insert_eq_some.mp hk with ⟨hkq, hr⟩ | ⟨-, hk⟩
      · rw [← hr, hkq]
      · exact h.listed k r hk
    · exact h.listed k r hk
  · intro k r hk
    rw [logMalloc_freed, if_pos hkeep] at hk
    exact h.freed k r (lookup_erase_eq_some.mp hk).2
  · intro k hk
    rw [logMalloc_freed, if_pos hkeep, AList.mem_erase]
    intro hboth
    obtain ⟨hkq, hfreed⟩ := hboth
    rw [logMalloc_allocations] at hk
    split at hk
    · exact h.apart k (((AList.mem_insert _).mp hk).resolve_left hkq) hfreed
    · exact h.apart k hk hfreed

end LogState.Keyed

end Heapusage
