/-
Heapusage.Lib.Zones — a map over an address space painted zone by zone.

A zone is an interval of addresses with the value every address of it should
have. `Painted d zs f` says that the zones do not overlap, that `f` has the
value of its zone everywhere inside and the value `d` everywhere outside. The
three moves that keep such a picture are to add a zone where there was none,
to repaint one, and to wipe one back to `d`.

Values are of any type: protections, owners, colours.
-/
import Mathlib.Data.List.Perm.Basic
import Mathlib.Data.List.Pairwise

namespace Zones

universe u

/-- The addresses from `lo` to just below `hi`, with their values. -/
structure Zone (γ : Type u) where
  lo : Nat
  hi : Nat
  paint : Nat → γ

variable {γ : Type u}

def Zone.Covers (z : Zone γ) (a : Nat) : Prop := z.lo ≤ a ∧ a < z.hi

def Zone.Apart (y z : Zone γ) : Prop := ∀ a, y.Covers a → ¬ z.Covers a

theorem Zone.Apart.symm {y z : Zone γ} (h : y.Apart z) : z.Apart y :=
  fun a hz hy => h a hy hz

/-- The map has the value of its zone inside every zone and `d` outside. -/
structure Painted (d : γ) (zs : List (Zone γ)) (f : Nat → γ) : Prop where
  apart : zs.Pairwise Zone.Apart
  inside : ∀ z ∈ zs, ∀ a, z.Covers a → f a = z.paint a
  outside : ∀ a, (∀ z ∈ zs, ¬ z.Covers a) → f a = d

namespace Painted

variable {d : γ} {zs zs' : List (Zone γ)} {f f' : Nat → γ} {z z' : Zone γ}

theorem empty (d : γ) : Painted d [] (fun _ => d) :=
  ⟨List.Pairwise.nil, by simp, fun _ _ => rfl⟩

/-- The order of the zones does not matter. -/
theorem perm (h : Painted d zs f) (hp : zs.Perm zs') : Painted d zs' f where
  apart := hp.pairwise h.apart (fun hyz => hyz.symm)
  inside z hz := h.inside z (hp.mem_iff.mpr hz)
  outside a ha := h.outside a fun z hz => ha z (hp.mem_iff.mp hz)

/-- Where a new zone goes the map has its default value. -/
theorem fresh (h : Painted d zs f) (hz : ∀ y ∈ zs, z.Apart y) {a : Nat} (ha : z.Covers a) :
    f a = d :=
  h.outside a fun y hy => hz y hy a ha

/-- Add a zone apart from all others. -/
theorem add (h : Painted d zs f) (hz : ∀ y ∈ zs, z.Apart y)
    (hin : ∀ a, z.Covers a → f' a = z.paint a) (hout : ∀ a, ¬ z.Covers a → f' a = f a) :
    Painted d (z :: zs) f' where
  apart := List.pairwise_cons.mpr ⟨hz, h.apart⟩
  inside := by
    intro y hy a ha
    rcases List.mem_cons.mp hy with rfl | hy
    · exact hin a ha
    · rw [hout a fun hza => hz y hy a hza ha]
      exact h.inside y hy a ha
  outside := by
    intro a ha
    rw [hout a (ha z (List.mem_cons_self ..))]
    exact h.outside a fun y hy => ha y (List.mem_cons_of_mem z hy)

/-- Wipe a zone. -/
theorem wipe (h : Painted d (z :: zs) f) (hin : ∀ a, z.Covers a → f' a = d)
    (hout : ∀ a, ¬ z.Covers a → f' a = f a) : Painted d zs f' where
  apart := (List.pairwise_cons.mp h.apart).2
  inside := by
    intro y hy a ha
    have hz := (List.pairwise_cons.mp h.apart).1 y hy
    rw [hout a fun hza => hz a hza ha]
    exact h.inside y (List.mem_cons_of_mem z hy) a ha
  outside := by
    intro a ha
    by_cases hza : z.Covers a
    · exact hin a hza
    · rw [hout a hza]
      refine h.outside a fun y hy => ?_
      rcases List.mem_cons.mp hy with rfl | hy
      · exact hza
      · exact ha y hy

/-- Paint a zone anew. -/
theorem repaint (h : Painted d (z :: zs) f) (hlo : z'.lo = z.lo) (hhi : z'.hi = z.hi)
    (hin : ∀ a, z.Covers a → f' a = z'.paint a) (hout : ∀ a, ¬ z.Covers a → f' a = f a) :
    Painted d (z' :: zs) f' := by
  have hcov : ∀ a, z'.Covers a ↔ z.Covers a := by
    intro a
    rw [Zone.Covers, Zone.Covers, hlo, hhi]
  have hwiped : Painted d zs (fun a => if z.lo ≤ a ∧ a < z.hi then d else f a) :=
    h.wipe (fun a ha => if_pos ha) (fun a ha => if_neg ha)
  refine hwiped.add ?_ (fun a ha => hin a ((hcov a).mp ha)) ?_
  · intro y hy a ha
    exact (List.pairwise_cons.mp h.apart).1 y hy a ((hcov a).mp ha)
  · intro a ha
    rw [hout a fun hza => ha ((hcov a).mpr hza)]
    exact (if_neg fun hza => ha ((hcov a).mpr hza)).symm

end Painted

end Zones
