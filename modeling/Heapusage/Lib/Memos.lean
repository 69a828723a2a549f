/-
Heapusage.Lib.Memos — a table that remembers the answers of a resolver.

A question is answered from the table, or by the resolver, whose answer is
then kept; a resolver that has no answer leaves the table as it is and is
asked again next time. The resolver may differ from one question to the next.

An entry never changes (`ask_extends`) and was given by a resolver
(`ask_answered`). So what was answered once is answered the same way ever
after.
-/
import Heapusage.Lib.Tables

namespace Memos

open Tables

universe u v

variable {α : Type u} {β : Type v} [DecidableEq α]

/-- The answer to a question, and the table after it. -/
def ask (resolve : α → Option β) (a : α) (t : Table α β) : Table α β × Option β :=
  match t.lookup a with
  | some b => (t, some b)
  | none =>
      match resolve a with
      | some b => (t.insert a b, some b)
      | none => (t, none)

/-- Every entry of `t` is one of `t'`. -/
def Extends (t t' : Table α β) : Prop := ∀ a b, t.lookup a = some b → t'.lookup a = some b

theorem Extends.refl (t : Table α β) : Extends t t := fun _ _ h => h

theorem Extends.trans {t t' t'' : Table α β} (h : Extends t t') (h' : Extends t' t'') :
    Extends t t'' := fun a b hab => h' a b (h a b hab)

section Ask

variable {resolve : α → Option β} {a : α} {t : Table α β}

theorem ask_extends : Extends t (ask resolve a t).1 := by
  intro k b hk
  unfold ask
  cases hlookup : t.lookup a with
  | some d => exact hk
  | none =>
    cases resolve a with
    | none => exact hk
    | some d =>
      have hne : k ≠ a := by
        rintro rfl
        rw [hk] at hlookup
        cases hlookup
      exact (AList.lookup_insert_ne hne).trans hk

/-- The answer is in the table from now on. -/
theorem ask_lookup : (ask resolve a t).1.lookup a = (ask resolve a t).2 := by
  unfold ask
  cases hlookup : t.lookup a with
  | some d => exact hlookup
  | none =>
    cases resolve a with
    | none => exact hlookup
    | some d => exact AList.lookup_insert t

/-- A new entry was given by the resolver. -/
theorem ask_answered {k : α} {b : β} (h : (ask resolve a t).1.lookup k = some b) :
    t.lookup k = some b ∨ resolve k = some b := by
  unfold ask at h
  cases hlookup : t.lookup a with
  | some d =>
    rw [hlookup] at h
    exact .inl h
  | none =>
    rw [hlookup] at h
    cases hresolve : resolve a with
    | none =>
      rw [hresolve] at h
      exact .inl h
    | some d =>
      rw [hresolve] at h
      rcases lookup_insert_eq_some.mp h with ⟨rfl, rfl⟩ | ⟨-, h⟩
      · exact .inr hresolve
      · exact .inl h

end Ask

end Memos
