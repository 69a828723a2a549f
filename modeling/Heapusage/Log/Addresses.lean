/-
Heapusage.Log.Addresses — `log_event` tracks each address by itself.

§1 Entries — what the two tables hold for one address, and what an event on
             the address makes of it (`Entries.next`). The tables are a family
             of such entries (`logCall_cellular`).
§2 History — the entries of an address against the events of the run so far
             (`AddressTracked`).
§3 Every address of every run (`addresses_tracked_apart`).

A report with an empty backtrace throws, and `LogState.uncaught` then stays
set. Here a call starts with no exception in flight (`logCall`): the run of a
program that does not survive an exception ends with the call that threw, and
that of a program that catches it goes on.
-/
import Heapusage.Lib.Cells
import Heapusage.Log.Repeats

namespace Heapusage

open Cells Runs Tables

/-! ## §1 Entries -/

/-- One call of `log_event`, with no exception in flight. -/
def logCall (c : LogConfig) (l : LogState) (i : LogInput) : LogState :=
  logNext c { l with uncaught := false } i

/-- What `allocations` and `freed_allocations` hold for one address. -/
structure Entries where
  allocated : Option HuAllocinfoT
  freed : Option HuAllocinfoT
  deriving DecidableEq

def LogState.entries (l : LogState) (p : Nat) : Entries where
  allocated := l.allocations.lookup p
  freed := l.freedAllocations.lookup p

/-- The record of an allocation event. -/
def LogInput.record (i : LogInput) : HuAllocinfoT where
  ptr := i.ptr
  size := i.size
  callstack := i.callstack
  freeCallstack := []
  count := 1

/-- An event on the address. -/
def Entries.next (c : LogConfig) (e : Entries) (i : LogInput) : Entries :=
  match i.event with
  | .malloc =>
      { allocated := if c.huLogMinleak ≤ i.size then some i.record else e.allocated
        freed := if c.keepsFreed then none else e.freed }
  | .free =>
      match e.allocated with
      | some info =>
          { allocated := none
            freed :=
              if c.keepsFreed then e.freed.or (some (freedRecord c i.callstack info))
              else e.freed }
      | none =>
          { allocated := none
            -- with an empty backtrace the report throws and the record stays
            freed := if c.huLogFree ∧ i.callstack ≠ [] then none else e.freed }

section Events

variable {c : LogConfig} {l : LogState} {i : LogInput}

theorem logMalloc_entries (hevent : i.event = .malloc) :
    (logMalloc c i.ptr i.size i.callstack l).entries i.ptr = (l.entries i.ptr).next c i := by
  simp only [LogState.entries, Entries.next, hevent, logMalloc_allocations, logMalloc_freed,
    Entries.mk.injEq]
  constructor
  · split
    · exact AList.lookup_insert _
    · rfl
  · split
    · exact AList.lookup_erase ..
    · rfl

theorem logFree_entries (hevent : i.event = .free) (hret : l.uncaught = false) :
    (logFree c i.ptr i.callstack l).entries i.ptr = (l.entries i.ptr).next c i := by
  simp only [LogState.entries, Entries.next, hevent, logFree_allocations, AList.lookup_erase]
  cases hlook : l.allocations.lookup i.ptr with
  | some info =>
    rw [logFree_freed_listed c i.ptr i.callstack l hlook]
    simp only [Entries.mk.injEq, true_and]
    split
    · exact lookup_insertNew_self ..
    · rfl
  | none =>
    rw [logFree_freed]
    simp only [logFreeTables, hlook, Entries.mk.injEq, true_and]
    cases hdf : c.huLogFree with
    | false => simp
    | true =>
      cases hfreed : l.freedAllocations.lookup i.ptr with
      | none => simp [hfreed]
      | some block =>
        simp only [if_true, true_and, invalidDealloc_freedAllocations,
          invalidDealloc_throws c i.ptr i.callstack l block hret]
        by_cases hcs : i.callstack = []
        · simp [hcs, hfreed]
        · simp [hcs]

theorem logNext_entries (hon : l.loggingEnabled = true) (hret : l.uncaught = false) :
    (logNext c l i).entries i.ptr = (l.entries i.ptr).next c i := by
  cases hevent : i.event with
  | malloc =>
    rw [logNext_malloc hon hevent]
    exact logMalloc_entries hevent
  | free =>
    rw [logNext_free hon hevent]
    exact logFree_entries hevent hret

theorem logNext_entries_ne {k : Nat} (hk : k ≠ i.ptr) :
    (logNext c l i).entries k = l.entries k := by
  obtain ⟨hallocated, hfreed⟩ := logNext_tables_ne hk.symm (c := c) (l := l)
  rw [LogState.entries, hallocated, hfreed, LogState.entries]

end Events

/-- **The tables are a family of entries**, one for each address. -/
theorem logCall_cellular (c : LogConfig) :
    Cellular (logCall c) (fun l => l.loggingEnabled = true) LogInput.ptr LogState.entries
      (Entries.next c) where
  keeps _ _ hon := logNext_enabled hon
  own _ _ hon := logNext_entries hon rfl
  other _ _ _ _ hk := logNext_entries_ne hk

/-- The log after a sequence of events. -/
def logRun (c : LogConfig) (is : List LogInput) : LogState := exec (logCall c) logStart is

theorem logRun_enabled (c : LogConfig) (is : List LogInput) :
    (logRun c is).loggingEnabled = true :=
  exec_invariant (logCall_cellular c).keeps is logStart rfl

theorem logRun_concat (c : LogConfig) (is : List LogInput) (i : LogInput) :
    logRun c (is ++ [i]) = logCall c (logRun c is) i := exec_append ..

theorem logRun_entries (c : LogConfig) (is : List LogInput) (i : LogInput) :
    (logRun c (is ++ [i])).entries i.ptr = ((logRun c is).entries i.ptr).next c i := by
  rw [logRun_concat, (logCall_cellular c).own _ _ (logRun_enabled c is)]

theorem logRun_entries_ne (c : LogConfig) (is : List LogInput) {i : LogInput} {p : Nat}
    (hp : p ≠ i.ptr) : (logRun c (is ++ [i])).entries p = (logRun c is).entries p := by
  rw [logRun_concat, (logCall_cellular c).other _ _ _ (logRun_enabled c is) hp]

/-! ## §2 History -/

/-- The most recent tracked allocation at `p`. -/
def lastTracked (c : LogConfig) (p : Nat) (is : List LogInput) : Option LogInput :=
  (is.filter fun i => i.ptr = p ∧ i.Tracked c).getLast?

theorem lastTracked_concat {c : LogConfig} (is : List LogInput) {i : LogInput}
    (hi : i.Tracked c) : lastTracked c i.ptr (is ++ [i]) = some i := by
  simp [lastTracked, hi]

theorem lastTracked_concat_other {c : LogConfig} {p : Nat} (is : List LogInput) {i : LogInput}
    (hi : i.ptr = p → ¬ i.Tracked c) : lastTracked c p (is ++ [i]) = lastTracked c p is := by
  rw [lastTracked, List.filter_append, List.filter_cons_of_neg (by simpa using hi),
    List.filter_nil, List.append_nil, lastTracked]

/-- The freed record of `p` was made by the free `f`, has been there since, and
no block has been allocated at `p` since, of whatever size. -/
def FreedSince (c : LogConfig) (p : Nat) (is : List LogInput) (f : LogInput) : Prop :=
  ∃ before after, is = before ++ f :: after ∧ f.event = .free ∧ f.ptr = p ∧
    p ∉ (logRun c before).freedAllocations ∧
    (∀ js, js <+: after → p ∈ (logRun c (before ++ f :: js)).freedAllocations) ∧
    ∀ i ∈ after, i.ptr = p → i.event ≠ .malloc

/-- What the two tables hold for `p` after the events `is`. -/
structure AddressTracked (c : LogConfig) (p : Nat) (is : List LogInput) (l : LogState) : Prop where
  /-- `p` is not a key of both -/
  apart : ¬ (p ∈ l.allocations ∧ p ∈ l.freedAllocations)
  /-- the record of a live block is that of the last tracked allocation -/
  allocated : ∀ r, l.allocations.lookup p = some r →
    ∃ a, lastTracked c p is = some a ∧ r.size = a.size ∧ r.callstack = a.callstack
  /-- that of a freed one, too, with the callstack of the free that made it -/
  freed : ∀ r, l.freedAllocations.lookup p = some r →
    ∃ f a, FreedSince c p is f ∧ lastTracked c p is = some a ∧
      r.size = a.size ∧ r.callstack = a.callstack ∧ r.freeCallstack = f.callstack

section History

variable {c : LogConfig} {p : Nat} {is : List LogInput}

/-- A free that finds the address listed makes the record. -/
theorem FreedSince.made {i : LogInput} (hevent : i.event = .free)
    (hbefore : i.ptr ∉ (logRun c is).freedAllocations)
    (hafter : i.ptr ∈ (logRun c (is ++ [i])).freedAllocations) :
    FreedSince c i.ptr (is ++ [i]) i := by
  refine ⟨is, [], rfl, hevent, rfl, hbefore, ?_, by simp⟩
  intro js hjs
  rw [List.prefix_nil.mp hjs]
  exact hafter

/-- An event that leaves the record alone. -/
theorem FreedSince.kept {f i : LogInput} (h : FreedSince c p is f)
    (hevent : i.ptr = p → i.event ≠ .malloc)
    (hkept : (logRun c (is ++ [i])).freedAllocations.lookup p =
      (logRun c is).freedAllocations.lookup p) : FreedSince c p (is ++ [i]) f := by
  obtain ⟨before, after, rfl, hfree, hptr, hbefore, hsince, hquiet⟩ := h
  refine ⟨before, after ++ [i], by simp, hfree, hptr, hbefore, ?_, ?_⟩
  · intro js hjs
    rcases List.prefix_concat_iff.mp hjs with rfl | hjs
    · have hthere := hsince after (List.prefix_refl _)
      rw [← AList.lookup_isSome] at hthere ⊢
      rwa [← hkept, List.append_assoc, List.cons_append] at hthere
    · exact hsince js hjs
  · intro j hj
    rcases List.mem_append.mp hj with hj | hj
    · exact hquiet j hj
    · rw [List.mem_singleton.mp hj]
      exact hevent

/-- With neither tool nothing is kept. -/
theorem logRun_freed_off (hoff : c.keepsFreed = false) :
    ((logRun c is).entries p).freed = none := by
  induction is using List.reverseRecOn with
  | nil => rfl
  | append_singleton is i ih =>
    by_cases hp : i.ptr = p
    · subst hp
      rw [logRun_entries, Entries.next]
      cases i.event with
      | malloc => simp [hoff, ih]
      | free =>
        cases ((logRun c is).entries i.ptr).allocated with
        | some info => simp [hoff, ih]
        | none => simp [ih]
    · rw [logRun_entries_ne c is (Ne.symm hp), ih]

/-- An allocation at `p`. -/
theorem AddressTracked.malloc {i : LogInput} (h : AddressTracked c i.ptr is (logRun c is))
    (hevent : i.event = .malloc) : AddressTracked c i.ptr (is ++ [i]) (logRun c (is ++ [i])) := by
  have hnext := logRun_entries c is i
  have hfreed : ((logRun c (is ++ [i])).entries i.ptr).freed = none := by
    cases hkeep : c.keepsFreed with
    | true => simp [hnext, Entries.next, hevent, hkeep]
    | false => exact logRun_freed_off hkeep
  refine ⟨fun hboth => not_mem_of_lookup_none hfreed hboth.2, ?_, ?_⟩
  · intro r hr
    have hr : ((logRun c (is ++ [i])).entries i.ptr).allocated = some r := hr
    simp only [hnext, Entries.next, hevent] at hr
    split at hr
    · rename_i hmin
      refine ⟨i, lastTracked_concat is ⟨hevent, hmin⟩, ?_⟩
      rw [← Option.some.inj hr]
      exact ⟨rfl, rfl⟩
    · rename_i hsmall
      rw [lastTracked_concat_other is fun _ hi => hsmall hi.2]
      exact h.allocated r hr
  · intro r hr
    exact absurd (hfreed.symm.trans hr) (by simp)

/-- A free of `p`. -/
theorem AddressTracked.free {i : LogInput} (h : AddressTracked c i.ptr is (logRun c is))
    (hevent : i.event = .free) : AddressTracked c i.ptr (is ++ [i]) (logRun c (is ++ [i])) := by
  have hnext := logRun_entries c is i
  have hlast : lastTracked c i.ptr (is ++ [i]) = lastTracked c i.ptr is :=
    lastTracked_concat_other is fun _ hi => absurd (hevent.symm.trans hi.1) (by simp)
  have hallocated : ((logRun c (is ++ [i])).entries i.ptr).allocated = none := by
    rw [hnext, Entries.next, hevent]
    cases ((logRun c is).entries i.ptr).allocated <;> rfl
  refine ⟨fun hboth => not_mem_of_lookup_none hallocated hboth.1, ?_, ?_⟩
  · intro r hr
    exact absurd (hallocated.symm.trans hr) (by simp)
  intro r hr
  have hr : ((logRun c (is ++ [i])).entries i.ptr).freed = some r := hr
  rw [hlast]
  cases hlook : ((logRun c is).entries i.ptr).allocated with
  | some info =>
    have hnone : ((logRun c is).entries i.ptr).freed = none :=
      AList.lookup_eq_none.mpr fun hmem => h.apart ⟨mem_of_lookup hlook, hmem⟩
    have hmade := hr
    simp only [hnext, Entries.next, hevent, hlook, hnone, Option.none_or] at hr
    split at hr
    · rename_i hkeep
      obtain ⟨a, ha, hsize, hstack⟩ := h.allocated info hlook
      have hinfo := Option.some.inj hr
      refine ⟨i, a, .made hevent (not_mem_of_lookup_none hnone) (mem_of_lookup hmade), ha, ?_⟩
      rw [← hinfo]
      exact ⟨hsize, hstack, if_pos hkeep⟩
    · exact absurd hr (by simp)
  | none =>
    have hkept : ((logRun c (is ++ [i])).entries i.ptr).freed =
        ((logRun c is).entries i.ptr).freed := by
      rw [hnext] at hr ⊢
      simp only [Entries.next, hevent, hlook] at hr ⊢
      split at hr
      · exact absurd hr (by simp)
      · rename_i hno
        exact if_neg hno
    obtain ⟨f, a, hsince, hrest⟩ := h.freed r (hkept.symm.trans hr)
    exact ⟨f, a, hsince.kept (fun _ => by simp [hevent]) hkept, hrest⟩

/-- An event on another address. -/
theorem AddressTracked.other {i : LogInput} (h : AddressTracked c p is (logRun c is))
    (hp : i.ptr ≠ p) : AddressTracked c p (is ++ [i]) (logRun c (is ++ [i])) := by
  have hsame := logRun_entries_ne c is hp.symm
  have hallocated : (logRun c (is ++ [i])).allocations.lookup p =
      (logRun c is).allocations.lookup p := congrArg Entries.allocated hsame
  have hfreed : (logRun c (is ++ [i])).freedAllocations.lookup p =
      (logRun c is).freedAllocations.lookup p := congrArg Entries.freed hsame
  have hlast := lastTracked_concat_other (c := c) is fun heq => absurd heq hp
  refine ⟨?_, ?_, ?_⟩
  · rw [← AList.lookup_isSome, ← AList.lookup_isSome, hallocated, hfreed, AList.lookup_isSome,
      AList.lookup_isSome]
    exact h.apart
  · rw [hallocated, hlast]
    exact h.allocated
  · intro r hr
    rw [hfreed] at hr
    obtain ⟨f, a, hsince, hrest⟩ := h.freed r hr
    rw [hlast]
    exact ⟨f, a, hsince.kept (fun heq => absurd heq hp) hfreed, hrest⟩

/-- The entries of an address after any events. -/
theorem AddressTracked.run (c : LogConfig) (p : Nat) (is : List LogInput) :
    AddressTracked c p is (logRun c is) := by
  induction is using List.reverseRecOn with
  | nil =>
    have hempty : ∀ {r : HuAllocinfoT}, (∅ : Table Nat HuAllocinfoT).lookup p ≠ some r := by simp
    exact ⟨fun hboth => AList.notMem_empty p hboth.1, fun r hr => absurd hr hempty,
      fun r hr => absurd hr hempty⟩
  | append_singleton is i ih =>
    by_cases hp : i.ptr = p
    · subst hp
      cases hevent : i.event with
      | malloc => exact ih.malloc hevent
      | free => exact ih.free hevent
    · exact ih.other hp

end History

/-! ## §3 Every address of every run -/

/-- **Each address is tracked by itself**: what the tables hold for it depends
on the events on it alone, in their order, so that events on different
addresses may change places; and it is what these events made of it, whatever
their pointers, sizes and callstacks. -/
theorem addresses_tracked_apart (c : LogConfig) (is : List LogInput) (p : Nat) :
    (∀ js, (js.filter fun i => i.ptr = p) = (is.filter fun i => i.ptr = p) →
      (logRun c js).entries p = (logRun c is).entries p) ∧
    (∀ before i j after, is = before ++ i :: j :: after → i.ptr ≠ j.ptr →
      (logRun c (before ++ j :: i :: after)).entries p = (logRun c is).entries p) ∧
    AddressTracked c p is (logRun c is) := by
  refine ⟨?_, ?_, AddressTracked.run c p is⟩
  · intro js hsame
    exact (logCall_cellular c).cell_congr rfl hsame
  · rintro before i j after rfl hij
    exact ((logCall_cellular c).cell_swap hij before after rfl p).symm

/-- One block is still listed and one freed, whose address was in use before; the
events on them may also come in another order. -/
theorem addresses_tracked_apart_reused :
    let c : LogConfig := { plainLog with huUseafterfree := true, huLogMinleak := 4 }
    let is : List LogInput := [⟨.malloc, 64, 8, [1, 2]⟩, ⟨.malloc, 128, 16, [1, 3]⟩,
      ⟨.free, 128, 0, [1, 4]⟩, ⟨.malloc, 128, 24, [1, 5]⟩, ⟨.free, 128, 0, [1, 6]⟩]
    let js : List LogInput := [⟨.malloc, 128, 16, [1, 3]⟩, ⟨.free, 128, 0, [1, 4]⟩,
      ⟨.malloc, 128, 24, [1, 5]⟩, ⟨.malloc, 64, 8, [1, 2]⟩, ⟨.free, 128, 0, [1, 6]⟩]
    (logRun c js).entries 128 = (logRun c is).entries 128 ∧
      (logRun c is).entries 64 = ⟨some ⟨64, 8, [1, 2], [], 1⟩, none⟩ ∧
      (logRun c is).entries 128 = ⟨none, some ⟨128, 24, [1, 5], [1, 6], 1⟩⟩ ∧
      AddressTracked c 64 is (logRun c is) ∧ AddressTracked c 128 is (logRun c is) := by
  intro c is js
  obtain ⟨-, -, hlisted⟩ := addresses_tracked_apart c is 64
  obtain ⟨hproject, -, hfreed⟩ := addresses_tracked_apart c is 128
  exact ⟨hproject js rfl, by decide, by decide, hlisted, hfreed⟩

end Heapusage
