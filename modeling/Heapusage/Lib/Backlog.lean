/-
Heapusage.Lib.Backlog — a first-in first-out queue with a limit on its weight.

Elements join at the end, and as long as the total weight is over the limit
the front leaves. `trim` is what stays and `overflow` what leaves, in the
order of leaving; together they are the queue (`overflow_append_trim`). What
stays is the longest suffix whose weight is within the limit
(`longest_trim`), and nothing else is (`Longest.unique`).

The weight is any function to the naturals, the limit any number.
-/
import Mathlib.Algebra.BigOperators.Group.List.Basic
import Mathlib.Algebra.GroupWithZero.Nat
import Mathlib.Data.List.Infix

namespace Backlogs

universe u v

variable {α : Type u} (weight : α → Nat) (limit : Nat)

/-- The weight of a queue. -/
def total (q : List α) : Nat := (q.map weight).sum

/-- What stays in the queue. -/
def trim : List α → List α
  | [] => []
  | a :: q => if total weight (a :: q) > limit then trim q else a :: q

/-- What leaves the queue, first in first out. -/
def overflow : List α → List α
  | [] => []
  | a :: q => if total weight (a :: q) > limit then a :: overflow q else []

/-- `t` is the longest suffix of `q` whose weight is within the limit. -/
structure Longest (q t : List α) : Prop where
  suffix : t <:+ q
  within : total weight t ≤ limit
  longest : ∀ u, u <:+ q → total weight u ≤ limit → u <:+ t

section Totals

variable {weight}

@[simp] theorem total_nil : total weight ([] : List α) = 0 := rfl

@[simp] theorem total_cons (a : α) (q : List α) :
    total weight (a :: q) = weight a + total weight q := by
  simp [total]

@[simp] theorem total_append (q r : List α) :
    total weight (q ++ r) = total weight q + total weight r := by
  simp [total]

end Totals

variable {weight limit}

theorem overflow_append_trim (q : List α) : overflow weight limit q ++ trim weight limit q = q := by
  induction q with
  | nil => rfl
  | cons a q ih =>
    unfold overflow trim
    split
    · rw [List.cons_append, ih]
    · rfl

theorem trim_suffix (q : List α) : trim weight limit q <:+ q :=
  ⟨overflow weight limit q, overflow_append_trim q⟩

theorem total_trim_le (q : List α) : total weight (trim weight limit q) ≤ limit := by
  induction q with
  | nil => exact Nat.zero_le limit
  | cons a q ih =>
    unfold trim
    split
    · exact ih
    · rename_i hle
      exact Nat.not_lt.mp hle

/-- **What stays is the longest suffix within the limit.** -/
theorem longest_trim (q : List α) : Longest weight limit q (trim weight limit q) := by
  refine ⟨trim_suffix q, total_trim_le q, ?_⟩
  induction q with
  | nil => exact fun u hu _ => hu
  | cons a q ih =>
    intro u hu hle
    unfold trim
    split
    · rename_i hover
      rcases List.suffix_cons_iff.mp hu with heq | hu
      · rw [heq] at hle
        exact absurd hle (Nat.not_le.mpr hover)
      · exact ih u hu hle
    · exact hu

/-- There is only one. -/
theorem Longest.unique {q t u : List α} (ht : Longest weight limit q t)
    (hu : Longest weight limit q u) : t = u :=
  (hu.longest t ht.suffix ht.within).eq_of_length_le
    (ht.longest u hu.suffix hu.within).length_le

/-- A suffix stays exactly if it is within the limit. -/
theorem suffix_trim_iff {q t : List α} (ht : t <:+ q) :
    t <:+ trim weight limit q ↔ total weight t ≤ limit := by
  constructor
  · intro hstays
    obtain ⟨left, hsplit⟩ := hstays
    have hle : total weight (trim weight limit q) ≤ limit := total_trim_le q
    rw [← hsplit, total_append] at hle
    omega
  · exact (longest_trim q).longest t ht

/-- A queue trimmed before is trimmed as if nothing had left. -/
theorem trim_append_trim (q r : List α) :
    trim weight limit (trim weight limit q ++ r) = trim weight limit (q ++ r) := by
  induction q with
  | nil => rfl
  | cons a q ih =>
    by_cases hover : total weight (a :: q) > limit
    · have hmore : total weight (a :: (q ++ r)) > limit := by
        rw [← List.cons_append, total_append]
        omega
      rw [trim, if_pos hover, ih, List.cons_append, trim, if_pos hmore]
    · rw [trim, if_neg hover]

/-- Where names are not repeated, the ones that stay are those that do not leave. -/
theorem mem_map_trim {β : Type v} {f : α → β} {q : List α} (h : (q.map f).Nodup) {k : β} :
    k ∈ (trim weight limit q).map f ↔ k ∈ q.map f ∧ k ∉ (overflow weight limit q).map f := by
  have hsplit : (overflow weight limit q).map f ++ (trim weight limit q).map f = q.map f := by
    rw [← List.map_append, overflow_append_trim]
  rw [← hsplit] at h ⊢
  obtain ⟨-, -, hapart⟩ := List.nodup_append.mp h
  rw [List.mem_append]
  constructor
  · exact fun hk => ⟨.inr hk, fun hleft => hapart k hleft k hk rfl⟩
  · intro hboth
    obtain ⟨hk | hk, hstays⟩ := hboth
    · exact absurd hk hstays
    · exact hk

/-- The newest element stays exactly if it is within the limit by itself. -/
theorem mem_trim_concat {q : List α} {a : α} :
    a ∈ trim weight limit (q ++ [a]) ↔ weight a ≤ limit := by
  have hlast : [a] <:+ q ++ [a] := List.suffix_append q [a]
  constructor
  · intro hmem
    obtain ⟨r, s, hsplit⟩ := List.append_of_mem hmem
    have hle : total weight (trim weight limit (q ++ [a])) ≤ limit := total_trim_le (q ++ [a])
    rw [hsplit, total_append, total_cons] at hle
    omega
  · intro hle
    have hsuffix := (longest_trim (q ++ [a])).longest [a] hlast (by simpa using hle)
    exact hsuffix.subset (List.mem_singleton_self a)

/-- A newest element over the limit by itself takes everything with it. -/
theorem trim_concat_of_lt {q : List α} {a : α} (h : limit < weight a) :
    trim weight limit (q ++ [a]) = [] := by
  have hgone : a ∉ trim weight limit (q ++ [a]) := fun hmem =>
    absurd (mem_trim_concat.mp hmem) (Nat.not_le.mpr h)
  have hsuffix : trim weight limit (q ++ [a]) <:+ q ++ [a] := trim_suffix (q ++ [a])
  rcases List.suffix_concat_iff.mp hsuffix with hnil | ⟨t, ht, -⟩
  · exact hnil
  · rw [ht] at hgone
    exact absurd (List.mem_append_right t (List.mem_singleton_self a)) hgone

end Backlogs
