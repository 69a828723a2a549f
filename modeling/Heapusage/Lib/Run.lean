/-
Heapusage.Lib.Run — finite runs of a deterministic machine.

A machine is a function `next : σ → ι → σ`: the input carries every choice
the environment makes, so a nondeterministic system is the machine over all
its inputs. `exec` folds a list of inputs, `Along` says that every input
meets a condition in the state it is given in.

The rules the developments use: `Along.invariant` (what one step preserves a
run preserves; `exec_invariant` where every input is admitted), `Along.history`
(the same for a fact about the state and the inputs taken so far),
`Along.exact` (a condition on the steps that is met all along a run exactly if
the states have a property), `Along.lockstep` (a relation between two machines
that every step preserves relates the ends of two runs), `Along.simulates` (a
machine that can follow every step of another follows its runs) and `Along.family`
(an invariant of machines that split in two). Everything is quantified over the
input list, so a fact about the end of a run is a fact about every state the
run passes.
-/
import Mathlib.Logic.Basic

namespace Runs

universe u v w

variable {σ : Type u} {ι : Type v}

/-- The state a list of inputs leads to. -/
def exec (next : σ → ι → σ) (s : σ) (is : List ι) : σ :=
  is.foldl next s

/-- Every input of the list meets `ok` in the state it is given in. -/
def Along (next : σ → ι → σ) (ok : σ → ι → Prop) : σ → List ι → Prop
  | _, [] => True
  | s, i :: is => ok s i ∧ Along next ok (next s i) is

instance decidableAlong (next : σ → ι → σ) (ok : σ → ι → Prop)
    [∀ s i, Decidable (ok s i)] : ∀ s is, Decidable (Along next ok s is)
  | _, [] => inferInstanceAs (Decidable True)
  | s, i :: is =>
      have := decidableAlong next ok (next s i) is
      inferInstanceAs (Decidable (_ ∧ _))

section Basics

variable {next : σ → ι → σ} {ok ok' : σ → ι → Prop}

@[simp] theorem exec_nil (s : σ) : exec next s [] = s := rfl

@[simp] theorem exec_cons (s : σ) (i : ι) (is : List ι) :
    exec next s (i :: is) = exec next (next s i) is := rfl

theorem exec_append (s : σ) (is js : List ι) :
    exec next s (is ++ js) = exec next (exec next s is) js := by
  simp [exec]

@[simp] theorem along_nil (s : σ) : Along next ok s [] := trivial

@[simp] theorem along_cons (s : σ) (i : ι) (is : List ι) :
    Along next ok s (i :: is) ↔ ok s i ∧ Along next ok (next s i) is := Iff.rfl

/-- A run of a concatenation is a run of both parts, one after the other. -/
theorem along_append (is js : List ι) : ∀ s : σ,
    Along next ok s (is ++ js) ↔
      Along next ok s is ∧ Along next ok (exec next s is) js := by
  induction is with
  | nil => intro s; simp
  | cons i is ih =>
    intro s
    simp only [List.cons_append, along_cons, exec_cons, ih]
    exact and_assoc.symm

/-- Two conditions that are both met along a run are met together. -/
theorem Along.and (is : List ι) : ∀ s : σ, Along next ok s is → Along next ok' s is →
    Along next (fun s i => ok s i ∧ ok' s i) s is := by
  induction is with
  | nil => exact fun _ _ _ => trivial
  | cons i is ih => exact fun s h h' => ⟨⟨h.1, h'.1⟩, ih (next s i) h.2 h'.2⟩

/-- A condition on the inputs alone. -/
theorem along_of_forall {P : ι → Prop} (is : List ι) (h : ∀ i ∈ is, P i) :
    ∀ s : σ, Along next (fun _ i => P i) s is := by
  induction is with
  | nil => intro s; trivial
  | cons i is ih =>
    intro s
    exact ⟨h i List.mem_cons_self, ih (fun j hj => h j (List.mem_cons_of_mem i hj)) _⟩

/-- **Invariant rule**: what every admitted step preserves, every admitted
run preserves. -/
theorem Along.invariant {Inv : σ → Prop}
    (hstep : ∀ s i, Inv s → ok s i → Inv (next s i)) :
    ∀ (is : List ι) (s : σ), Inv s → Along next ok s is → Inv (exec next s is) := by
  intro is
  induction is with
  | nil => intro s hs _; exact hs
  | cons i is ih =>
    intro s hs ⟨hok, hrest⟩
    exact ih (next s i) (hstep s i hs hok) hrest

/-- What every step preserves holds after every run. -/
theorem exec_invariant {Inv : σ → Prop} (hstep : ∀ s i, Inv s → Inv (next s i)) :
    ∀ (is : List ι) (s : σ), Inv s → Inv (exec next s is) := by
  intro is
  induction is with
  | nil => intro s hs; exact hs
  | cons i is ih => exact fun s hs => ih (next s i) (hstep s i hs)

/-- A condition may be weakened along a run, using an invariant of the run. -/
theorem Along.mono {Inv : σ → Prop}
    (hstep : ∀ s i, Inv s → ok s i → Inv (next s i))
    (himp : ∀ s i, Inv s → ok s i → ok' s i) :
    ∀ (is : List ι) (s : σ), Inv s → Along next ok s is → Along next ok' s is := by
  intro is
  induction is with
  | nil => intro s _ _; exact trivial
  | cons i is ih =>
    intro s hs ⟨hok, hrest⟩
    exact ⟨himp s i hs hok, ih (next s i) (hstep s i hs hok) hrest⟩

/-- **History rule**: a fact about the inputs taken so far and the state they
lead to, preserved by every admitted step. -/
theorem Along.history {Inv : List ι → σ → Prop}
    (hstep : ∀ js s i, Inv js s → ok s i → Inv (js ++ [i]) (next s i)) :
    ∀ (is js : List ι) (s : σ), Inv js s → Along next ok s is →
      Inv (js ++ is) (exec next s is) := by
  intro is
  induction is with
  | nil =>
    intro js s hs _
    rw [List.append_nil]
    exact hs
  | cons i is ih =>
    intro js s hs ⟨hok, hrest⟩
    have hnext := ih (js ++ [i]) (next s i) (hstep js s i hs hok) hrest
    rwa [List.append_assoc] at hnext

/-- **Exact-condition rule**: `good` steps keep to the invariant, and under the
invariant a step is good exactly if it meets `cond`. -/
theorem Along.exact {Inv : σ → Prop} {good cond : σ → ι → Prop}
    (hstep : ∀ s i, Inv s → ok s i → cond s i → Inv (next s i))
    (hiff : ∀ s i, Inv s → ok s i → (good s i ↔ cond s i)) :
    ∀ (is : List ι) (s : σ), Inv s → Along next ok s is →
      (Along next good s is ↔ Along next cond s is) := by
  intro is
  induction is with
  | nil => intro s _ _; exact Iff.rfl
  | cons i is ih =>
    intro s hs ⟨hok, hrest⟩
    rw [along_cons, along_cons, hiff s i hs hok]
    exact and_congr_right fun hcond => ih (next s i) (hstep s i hs hok hcond) hrest

end Basics

/-- **Lockstep rule**: two machines fed inputs that `lift` pairs up stay
related when every admitted step keeps them related. A step the second
machine does not take is one `lift` sends to the empty list. -/
theorem Along.lockstep {τ : Type w} {κ : Type v} {next : σ → ι → σ} {next' : τ → κ → τ}
    {ok : σ → ι → Prop} {Rel : σ → τ → Prop} (lift : ι → List κ)
    (hstep : ∀ s t i, Rel s t → ok s i → Rel (next s i) (exec next' t (lift i))) :
    ∀ (is : List ι) (s : σ) (t : τ), Rel s t → Along next ok s is →
      Rel (exec next s is) (exec next' t (is.flatMap lift)) := by
  intro is
  induction is with
  | nil => intro s t hrel _; exact hrel
  | cons i is ih =>
    intro s t hrel ⟨hok, hrest⟩
    rw [List.flatMap_cons, exec_append]
    exact ih (next s i) _ (hstep s t i hrel hok) hrest

/-- **Simulation rule**: a machine that admits every step another one admits, and
stays related to it, admits its runs. -/
theorem Along.simulates {τ : Type w} {next : σ → ι → σ} {next' : τ → ι → τ}
    {ok : σ → ι → Prop} {ok' : τ → ι → Prop} {Rel : σ → τ → Prop}
    (hstep : ∀ s t i, Rel s t → ok s i → ok' t i ∧ Rel (next s i) (next' t i)) :
    ∀ (is : List ι) (s : σ) (t : τ), Rel s t → Along next ok s is →
      Along next' ok' t is ∧ Rel (exec next s is) (exec next' t is) := by
  intro is
  induction is with
  | nil => exact fun s t hrel _ => ⟨trivial, hrel⟩
  | cons i is ih =>
    intro s t hrel ⟨hok, hrest⟩
    obtain ⟨hok', hnext⟩ := hstep s t i hrel hok
    obtain ⟨halong, hend⟩ := ih (next s i) (next' t i) hnext hrest
    exact ⟨⟨hok', halong⟩, hend⟩

/-! ## Families

Machines that split in two: after a split both halves go on by themselves, in
any interleaving. A family is the list of all machines so far.
-/

/-- What a machine of a family does next. -/
inductive Move (ι : Type u) (φ : Type v) where
  | step (i : ι)
  | split (f : φ)

section Families

variable {φ : Type w}

/-- Machine number `m.1` moves; the second half of a split joins at the end. -/
def familyNext (next : σ → ι → σ) (split : σ → φ → σ × σ) (family : List σ)
    (m : Nat × Move ι φ) : List σ :=
  match family[m.1]? with
  | none => family
  | some s =>
      match m.2 with
      | .step i => family.set m.1 (next s i)
      | .split f => family.set m.1 (split s f).1 ++ [(split s f).2]

/-- Steps are admitted by the machine that takes them; splits always are. -/
def familyOk (ok : σ → ι → Prop) (family : List σ) (m : Nat × Move ι φ) : Prop :=
  match family[m.1]?, m.2 with
  | some s, .step i => ok s i
  | _, _ => True

instance decidableFamilyOk (ok : σ → ι → Prop) [∀ s i, Decidable (ok s i)] (family : List σ)
    (m : Nat × Move ι φ) : Decidable (familyOk ok family m) := by
  unfold familyOk
  split <;> infer_instance

/-- **Family rule**: what every admitted step preserves, and every split gives
to both halves, holds of all machines of the family. -/
theorem Along.family {next : σ → ι → σ} {split : σ → φ → σ × σ} {ok : σ → ι → Prop}
    {Inv : σ → Prop} (hstep : ∀ s i, Inv s → ok s i → Inv (next s i))
    (hsplit : ∀ s f, Inv s → Inv (split s f).1 ∧ Inv (split s f).2)
    (ms : List (Nat × Move ι φ)) (family : List σ) (hinit : ∀ s ∈ family, Inv s)
    (hrun : Along (familyNext next split) (familyOk ok) family ms) :
    ∀ s ∈ exec (familyNext next split) family ms, Inv s := by
  have hpres : ∀ (family : List σ) (m : Nat × Move ι φ), (∀ s ∈ family, Inv s) →
      familyOk ok family m → ∀ s ∈ familyNext next split family m, Inv s := by
    intro family m hinv hok s hs
    unfold familyNext at hs
    cases hm : family[m.1]? with
    | none =>
      rw [hm] at hs
      exact hinv s hs
    | some s₀ =>
      have hs₀ : Inv s₀ := hinv s₀ (List.mem_of_getElem? hm)
      rw [hm] at hs
      cases hmove : m.2 with
      | step i =>
        simp only [hmove] at hs
        simp only [familyOk, hm, hmove] at hok
        rcases List.mem_or_eq_of_mem_set hs with hs | hs
        · exact hinv s hs
        · rw [hs]
          exact hstep s₀ i hs₀ hok
      | split f =>
        simp only [hmove, List.mem_append, List.mem_singleton] at hs
        rcases hs with hs | hs
        · rcases List.mem_or_eq_of_mem_set hs with hs | hs
          · exact hinv s hs
          · rw [hs]
            exact (hsplit s₀ f hs₀).1
        · rw [hs]
          exact (hsplit s₀ f hs₀).2
  exact Along.invariant hpres ms family hinit hrun

end Families

end Runs
