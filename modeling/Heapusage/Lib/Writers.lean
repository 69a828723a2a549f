/-
Heapusage.Lib.Writers — which values can be read back from what was written.

A writer turns a value into a list of symbols. It is legible before a class
of symbols when the value can be told from the front of any list that starts
with what the writer wrote, provided that what comes after is empty or starts
with a symbol of the class. Where a reader looks one symbol ahead, that class
is the follow set, and the symbols a writer opens with are its first set.

No reader is defined: two values with the same text are the same value, and
the same is left after them. Everything is stated over arbitrary symbols, so
that a writer of characters and a writer of lines use the same rules.

§1 Lists and their first symbols.
§2 Legible writers: single symbols, texts that are there or not, lists.
-/
import Mathlib.Logic.Function.Basic

namespace Writers

universe u v

variable {α : Type u} {κ : Type v}

/-! ## §1 First symbols -/

/-- The list is empty, or its first symbol is in the class. -/
def Starts (p : κ → Prop) (l : List κ) : Prop := ∀ x ∈ l.head?, p x

section Starts

variable {p q : κ → Prop} {x : κ} {l : List κ}

@[simp] theorem starts_nil : Starts p ([] : List κ) := by simp [Starts]

@[simp] theorem starts_cons : Starts p (x :: l) ↔ p x := by simp [Starts]

theorem Starts.mono (h : Starts p l) (hpq : ∀ x, p x → q x) : Starts q l :=
  fun x hx => hpq x (h x hx)

end Starts

/-- A word over one alphabet ends where the alphabet does. -/
theorem span_cancel {p : κ → Prop} {r s : List κ} (hr : Starts (fun x => ¬ p x) r)
    (hs : Starts (fun x => ¬ p x) s) :
    ∀ {u v : List κ}, (∀ x ∈ u, p x) → (∀ x ∈ v, p x) → u ++ r = v ++ s → u = v ∧ r = s := by
  intro u
  induction u with
  | nil =>
    intro v _ hv h
    cases v with
    | nil => exact ⟨rfl, h⟩
    | cons y v =>
      have hr' : r = y :: (v ++ s) := h
      rw [hr', starts_cons] at hr
      exact absurd (hv y List.mem_cons_self) hr
  | cons x u ih =>
    intro v hu hv h
    cases v with
    | nil =>
      have hs' : s = x :: (u ++ r) := h.symm
      rw [hs', starts_cons] at hs
      exact absurd (hu x List.mem_cons_self) hs
    | cons y v =>
      rw [List.cons_append, List.cons_append, List.cons.injEq] at h
      obtain ⟨hxy, htail⟩ := h
      obtain ⟨huv, hrs⟩ := ih (fun z hz => hu z (List.mem_cons_of_mem x hz))
        (fun z hz => hv z (List.mem_cons_of_mem y hz)) htail
      exact ⟨by rw [hxy, huv], hrs⟩

/-! ## §2 Legible writers -/

/-- What was written can be told apart when it is followed by nothing or by a
symbol of `follow`. -/
def Legible (w : α → List κ) (follow : κ → Prop) : Prop :=
  ∀ ⦃a b : α⦄ ⦃r s : List κ⦄, Starts follow r → Starts follow s →
    w a ++ r = w b ++ s → a = b ∧ r = s

/-- The writer writes something, and starts it in the class. -/
def Opens (w : α → List κ) (first : κ → Prop) : Prop :=
  ∀ a, ∃ x l, w a = x :: l ∧ first x

section Opens

variable {w : α → List κ} {first : κ → Prop}

theorem Opens.starts (h : Opens w first) (a : α) (r : List κ) : Starts first (w a ++ r) := by
  obtain ⟨x, l, hw, hx⟩ := h a
  rw [hw]
  exact starts_cons.mpr hx

/-- What is written is not what may follow, if the classes are apart. -/
theorem Opens.ne_follow {follow : κ → Prop} (h : Opens w first)
    (hapart : ∀ x, first x → ¬ follow x) (a : α) (l : List κ) {r : List κ}
    (hr : Starts follow r) : w a ++ l ≠ r := by
  obtain ⟨x, tail, hw, hx⟩ := h a
  rintro rfl
  rw [hw, List.cons_append, starts_cons] at hr
  exact hapart x hx hr

end Opens

namespace Legible

variable {w : α → List κ} {p q : κ → Prop}

/-- Alone, what a legible writer writes determines the value. -/
theorem injective (h : Legible w p) : Function.Injective w := by
  intro a b hab
  have happend : w a ++ [] = w b ++ [] := by rw [hab]
  exact (h starts_nil starts_nil happend).1

/-- Fewer followers make reading easier. -/
theorem mono (h : Legible w p) (hqp : ∀ x, q x → p x) : Legible w q :=
  fun _ _ _ _ hr hs heq => h (hr.mono hqp) (hs.mono hqp) heq

/-- One symbol for each value. -/
theorem of_symbol {f : α → κ} (hf : Function.Injective f) : Legible (fun a => [f a]) p := by
  intro a b r s _ _ h
  rw [List.singleton_append, List.singleton_append, List.cons.injEq] at h
  exact ⟨hf h.1, h.2⟩

/-- The same symbols in front of every value. -/
theorem after (h : Legible w p) (pre : List κ) : Legible (fun a => pre ++ w a) p := by
  intro a b r s hr hs heq
  rw [List.append_assoc, List.append_assoc] at heq
  exact h hr hs (List.append_cancel_left heq)

/-- A value that may be missing. -/
theorem option (first : κ → Prop) (h : Legible w p) (hopens : Opens w first)
    (hapart : ∀ x, first x → ¬ p x) : Legible (fun o : Option α => o.elim [] w) p := by
  intro o o' r s hr hs heq
  cases o with
  | none =>
    cases o' with
    | none => exact ⟨rfl, heq⟩
    | some b => exact absurd heq.symm (hopens.ne_follow hapart b s hr)
  | some a =>
    cases o' with
    | none => exact absurd heq (hopens.ne_follow hapart a r hs)
    | some b =>
      obtain ⟨hab, hrs⟩ := h hr hs heq
      exact ⟨congrArg some hab, hrs⟩

/-- A text that is there or not. -/
theorem flag {x : κ} {l : List κ} (hx : ¬ p x) :
    Legible (fun b : Bool => if b then x :: l else []) p := by
  have hne : ∀ {r s : List κ}, Starts p s → (x :: l) ++ r ≠ s := by
    rintro r _ hs rfl
    exact hx (starts_cons.mp hs)
  intro b d r s hr hs heq
  cases b with
  | false =>
    cases d with
    | false => exact ⟨rfl, heq⟩
    | true => exact absurd heq.symm (hne hr)
  | true =>
    cases d with
    | false => exact absurd heq (hne hs)
    | true => exact ⟨rfl, List.append_cancel_left heq⟩

/-- **Lists**: items one after the other, up to a symbol that opens no item. -/
theorem many (first : κ → Prop) (h : Legible w p) (hopens : Opens w first)
    (hfirst : ∀ x, first x → p x) (hqp : ∀ x, q x → p x) (hapart : ∀ x, first x → ¬ q x) :
    Legible (List.flatMap w) q := by
  have hitems : ∀ (l : List α) (r : List κ), Starts q r → Starts p (l.flatMap w ++ r) := by
    intro l r hr
    cases l with
    | nil => exact hr.mono hqp
    | cons a l =>
      rw [List.flatMap_cons, List.append_assoc]
      exact (hopens.starts a _).mono hfirst
  intro l
  induction l with
  | nil =>
    intro l' r s hr _ heq
    cases l' with
    | nil => exact ⟨rfl, heq⟩
    | cons b l' =>
      rw [List.flatMap_cons, List.append_assoc] at heq
      exact absurd heq.symm (hopens.ne_follow hapart b _ hr)
  | cons a l ih =>
    intro l' r s hr hs heq
    cases l' with
    | nil =>
      rw [List.flatMap_cons, List.append_assoc] at heq
      exact absurd heq (hopens.ne_follow hapart a _ hs)
    | cons b l' =>
      rw [List.flatMap_cons, List.flatMap_cons, List.append_assoc, List.append_assoc] at heq
      obtain ⟨hab, hrest⟩ := h (hitems l r hr) (hitems l' s hs) heq
      obtain ⟨htail, hrs⟩ := ih hr hs hrest
      exact ⟨by rw [hab, htail], hrs⟩

end Legible

end Writers
