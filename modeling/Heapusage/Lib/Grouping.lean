/-
Heapusage.Lib.Grouping — totals by key, and lists in a strict order.

§1 Totals    — the weight of the items of a list that have a key (`total`).
               The totals of all keys add up to the weight of the list
               (`sum_total`).
§2 Absorbing — an association list sorted by key, in which a key that is
               there takes the new item in (`absorb`).
§3 Arrival   — inserting an item after those of the same weight keeps the list
               in order of weight and then of arrival (`pairwise_arrival`).
§4 Order     — a list in a strict order is determined by its items
               (`eq_of_pairwise_of_mem_iff`).
-/
import Mathlib.Algebra.BigOperators.Group.List.Basic
import Mathlib.Algebra.GroupWithZero.Nat
import Mathlib.Data.List.Sort
import Mathlib.Order.Lattice

namespace Grouping

universe u v w

variable {α : Type u} {β : Type v} {κ : Type w}

/-! ## §1 Totals -/

section Totals

variable [DecidableEq κ] (key : α → κ) (weight : α → Nat)

/-- The weight of the items with key `k`. -/
def total (k : κ) (l : List α) : Nat := ((l.filter fun a => key a = k).map weight).sum

@[simp] theorem total_nil (k : κ) : total key weight k [] = 0 := rfl

@[simp] theorem total_cons (k : κ) (a : α) (l : List α) :
    total key weight k (a :: l) = (if key a = k then weight a else 0) + total key weight k l := by
  by_cases h : key a = k <;> simp [total, h]

theorem total_concat (k : κ) (l : List α) (a : α) :
    total key weight k (l ++ [a]) = total key weight k l + if key a = k then weight a else 0 := by
  by_cases h : key a = k <;> simp [total, h]

/-- The order of the items does not matter. -/
theorem total_perm (k : κ) {l l' : List α} (h : l.Perm l') :
    total key weight k l = total key weight k l' := ((h.filter _).map weight).sum_eq

theorem total_le (k : κ) (l : List α) : total key weight k l ≤ (l.map weight).sum := by
  induction l with
  | nil => simp
  | cons a l ih =>
    rw [total_cons, List.map_cons, List.sum_cons]
    split <;> omega

theorem le_total {a : α} {l : List α} (ha : a ∈ l) : weight a ≤ total key weight (key a) l := by
  induction l with
  | nil => simp at ha
  | cons b l ih =>
    rw [total_cons]
    rcases List.mem_cons.mp ha with rfl | ha
    · simp
    · exact (ih ha).trans (Nat.le_add_left _ _)

theorem total_of_absent {k : κ} {l : List α} (h : ∀ a ∈ l, key a ≠ k) :
    total key weight k l = 0 := by
  rw [total, List.filter_eq_nil_iff.mpr (by simpa using h)]
  rfl

variable {key weight}

/-- One key of a list without repetitions. -/
theorem sum_indicator {k : κ} {n : Nat} {ks : List κ} (hnd : ks.Nodup) (hk : k ∈ ks) :
    (ks.map fun k' => if k = k' then n else 0).sum = n := by
  induction ks with
  | nil => simp at hk
  | cons k' ks ih =>
    obtain ⟨hnew, hnd⟩ := List.nodup_cons.mp hnd
    rw [List.map_cons, List.sum_cons]
    rcases List.mem_cons.mp hk with rfl | hk
    · have hrest : (ks.map fun k' => if k = k' then n else 0).sum = 0 := by
        refine List.sum_eq_zero fun m hm => ?_
        obtain ⟨k'', hk'', rfl⟩ := List.mem_map.mp hm
        have hne : k ≠ k'' := ne_of_mem_of_not_mem hk'' hnew |>.symm
        exact if_neg hne
      rw [if_pos rfl, hrest, Nat.add_zero]
    · have hne : k ≠ k' := ne_of_mem_of_not_mem hk hnew
      rw [if_neg hne, ih hnd hk, Nat.zero_add]

/-- **The totals of all keys add up to the weight of the list.** -/
theorem sum_total {ks : List κ} (hnd : ks.Nodup) {l : List α} (hall : ∀ a ∈ l, key a ∈ ks) :
    (ks.map fun k => total key weight k l).sum = (l.map weight).sum := by
  induction l with
  | nil => simp
  | cons a l ih =>
    have ih := ih fun b hb => hall b (List.mem_cons_of_mem a hb)
    have hone : (ks.map fun k => if key a = k then weight a else 0).sum = weight a :=
      sum_indicator hnd (hall a List.mem_cons_self)
    simp only [total_cons, List.sum_map_add, ih, hone, List.map_cons, List.sum_cons]

end Totals

/-! ## §2 Absorbing -/

section Absorbing

variable [LinearOrder κ]

/-- The entry of `k` takes the new item in; without one, `(k, b)` goes where it
belongs. -/
def absorb (k : κ) (b : β) (merge : β → β) : List (κ × β) → List (κ × β)
  | [] => [(k, b)]
  | p :: rest =>
      if k = p.1 then (p.1, merge p.2) :: rest
      else if k < p.1 then (k, b) :: p :: rest
      else p :: absorb k b merge rest

variable {k : κ} {b : β} {merge : β → β} {l : List (κ × β)}

theorem mem_keys_absorb {k' : κ} :
    k' ∈ (absorb k b merge l).map Prod.fst ↔ k' = k ∨ k' ∈ l.map Prod.fst := by
  induction l with
  | nil => simp [absorb]
  | cons p rest ih =>
    rw [absorb]
    split
    · rename_i hk
      simp [← hk]
    · split
      · simp
      · rw [List.map_cons, List.mem_cons, ih, List.map_cons, List.mem_cons]
        exact or_left_comm

theorem pairwise_absorb (h : l.Pairwise fun p p' => p.1 < p'.1) :
    (absorb k b merge l).Pairwise fun p p' => p.1 < p'.1 := by
  induction l with
  | nil => simp [absorb]
  | cons p rest ih =>
    obtain ⟨hhead, htail⟩ := List.pairwise_cons.mp h
    rw [absorb]
    split
    · exact List.pairwise_cons.mpr ⟨hhead, htail⟩
    · rename_i hne
      split
      · rename_i hlt
        refine List.pairwise_cons.mpr ⟨?_, h⟩
        intro p' hp'
        rcases List.mem_cons.mp hp' with rfl | hp'
        · exact hlt
        · exact hlt.trans (hhead p' hp')
      · rename_i hge
        refine List.pairwise_cons.mpr ⟨?_, ih htail⟩
        intro p' hp'
        have hkey : p'.1 = k ∨ p'.1 ∈ rest.map Prod.fst :=
          mem_keys_absorb.mp (List.mem_map_of_mem hp')
        rcases hkey with hkey | hkey
        · rw [hkey]
          exact lt_of_le_of_ne (not_lt.mp hge) (Ne.symm hne)
        · obtain ⟨p'', hp'', heq⟩ := List.mem_map.mp hkey
          rw [← heq]
          exact hhead p'' hp''

/-- The entries afterwards: those of other keys, and one for `k`. -/
theorem mem_absorb (h : l.Pairwise fun p p' => p.1 < p'.1) {p : κ × β}
    (hp : p ∈ absorb k b merge l) :
    (p ∈ l ∧ p.1 ≠ k) ∨ (∃ b', (k, b') ∈ l ∧ p = (k, merge b')) ∨
      (k ∉ l.map Prod.fst ∧ p = (k, b)) := by
  induction l with
  | nil => exact .inr (.inr ⟨by simp, by simpa [absorb] using hp⟩)
  | cons q rest ih =>
    obtain ⟨hhead, htail⟩ := List.pairwise_cons.mp h
    rw [absorb] at hp
    split at hp
    · rename_i hk
      rcases List.mem_cons.mp hp with rfl | hp
      · exact .inr (.inl ⟨q.2, by simp [hk], by rw [hk]⟩)
      · exact .inl ⟨List.mem_cons_of_mem q hp, hk ▸ (hhead p hp).ne'⟩
    · rename_i hne
      split at hp
      · rename_i hlt
        have hnew : ∀ p' ∈ q :: rest, k < p'.1 := by
          intro p' hp'
          rcases List.mem_cons.mp hp' with rfl | hp'
          · exact hlt
          · exact hlt.trans (hhead p' hp')
        rcases List.mem_cons.mp hp with rfl | hp
        · refine .inr (.inr ⟨fun hmem => ?_, rfl⟩)
          obtain ⟨p', hp', heq⟩ := List.mem_map.mp hmem
          exact absurd heq (hnew p' hp').ne'
        · exact .inl ⟨hp, (hnew p hp).ne'⟩
      · rcases List.mem_cons.mp hp with rfl | hp
        · exact .inl ⟨List.mem_cons_self, Ne.symm hne⟩
        · rcases ih htail hp with ⟨hold, hk⟩ | ⟨b', hb', rfl⟩ | ⟨habsent, rfl⟩
          · exact .inl ⟨List.mem_cons_of_mem q hold, hk⟩
          · exact .inr (.inl ⟨b', List.mem_cons_of_mem q hb', rfl⟩)
          · refine .inr (.inr ⟨?_, rfl⟩)
            rw [List.map_cons, List.mem_cons]
            exact fun hmem => hmem.elim hne habsent

end Absorbing

/-! ## §3 Arrival -/

/-- Inserting by weight alone, after the items of the same weight: with every
item of the list before the new one, the list stays in order of weight and then
of arrival. -/
theorem pairwise_arrival {ω : Type v} [LinearOrder ω] {weight : α → ω} {before : α → α → Prop}
    {a : α} {l : List α}
    (h : l.Pairwise fun x y => weight x < weight y ∨ (weight x = weight y ∧ before x y))
    (hlast : ∀ x ∈ l, before x a) :
    (l.orderedInsert (fun x y => weight x < weight y) a).Pairwise fun x y =>
      weight x < weight y ∨ (weight x = weight y ∧ before x y) := by
  induction l with
  | nil => simp
  | cons x l ih =>
    obtain ⟨hhead, htail⟩ := List.pairwise_cons.mp h
    rw [List.orderedInsert_cons]
    split
    · rename_i hlt
      refine List.pairwise_cons.mpr ⟨?_, h⟩
      intro y hy
      rcases List.mem_cons.mp hy with rfl | hy
      · exact .inl hlt
      · rcases hhead y hy with hxy | ⟨hxy, -⟩
        · exact .inl (hlt.trans hxy)
        · exact .inl (hxy ▸ hlt)
    · rename_i hge
      refine List.pairwise_cons.mpr ⟨?_, ih htail fun y hy => hlast y (List.mem_cons_of_mem x hy)⟩
      intro y hy
      rcases (List.mem_orderedInsert _).mp hy with rfl | hy
      · rcases lt_or_eq_of_le (not_lt.mp hge) with hlt | heq
        · exact .inl hlt
        · exact .inr ⟨heq, hlast x List.mem_cons_self⟩
      · exact hhead y hy

/-! ## §4 Order -/

/-- **A list in a strict order is determined by its items.** -/
theorem eq_of_pairwise_of_mem_iff {r : α → α → Prop} (hasymm : ∀ a b, r a b → ¬ r b a)
    {l l' : List α} (h : l.Pairwise r) (h' : l'.Pairwise r) (hmem : ∀ a, a ∈ l ↔ a ∈ l') :
    l = l' := by
  have hne : ∀ {a b : α}, r a b → a ≠ b := by
    rintro a b hab rfl
    exact hasymm a a hab hab
  refine List.Perm.eq_of_pairwise (fun a b _ _ hab hba => absurd hba (hasymm a b hab)) h h' ?_
  exact (List.perm_ext_iff_of_nodup (h.imp hne) (h'.imp hne)).mpr hmem

end Grouping
