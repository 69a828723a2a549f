/-
Heapusage.Lib.Atomic — objects that several threads use at once.

An operation on an object takes time: it is invoked, and its answer comes
later, with steps of other threads in between. The atomic object is the one
whose operations take effect at one instant between the two. A history of
invocations and responses is linearizable if the atomic object has it, that
is if every operation can be given an instant between its invocation and its
response so that the answers are those of the operations one after the other.

§1 The atomic object and its paths.
§2 A path seen as a serial run: the operations in the order of their instants
   (`Path.serial`), each thread's among them in the thread's own order
   (`Path.completed`).
§3 The simulation rule: a machine that takes every step along a path of the
   atomic object has linearizable histories (`Path.simulation`).
§4 The view rule: threads that each keep to a rule about their own operations
   together keep to a specification of the object (`Serial.views`).
-/
import Heapusage.Lib.Run
import Mathlib.Data.List.Basic
import Mathlib.Logic.Function.Basic

namespace Atomic

open Runs

universe u v w x y z

variable {σ : Type u} {τ : Type v} {ι : Type w} {ρ : Type x}

/-! ## §1 The atomic object -/

/-- What is seen of an operation: its invocation, and the answer. -/
inductive Event (τ : Type v) (ι : Type w) (ρ : Type x) where
  | invoke (t : τ) (i : ι)
  | respond (t : τ) (r : ρ)

/-- The events, and the instants at which operations take effect. -/
inductive Mark (τ : Type v) (ι : Type w) (ρ : Type x) where
  | invoke (t : τ) (i : ι)
  | takeEffect (t : τ) (i : ι) (r : ρ)
  | respond (t : τ) (r : ρ)

namespace Mark

/-- The event of a mark; an instant is not seen. -/
def seen : Mark τ ι ρ → Option (Event τ ι ρ)
  | .invoke t i => some (.invoke t i)
  | .takeEffect _ _ _ => none
  | .respond t r => some (.respond t r)

/-- The operation that takes effect at a mark. -/
def effect : Mark τ ι ρ → Option (τ × ι × ρ)
  | .takeEffect t i r => some (t, i, r)
  | _ => none

end Mark

/-- How far the operation of a thread has come. -/
inductive Stage (ι : Type w) (ρ : Type x) where
  | idle
  | invoked (i : ι)
  | answered (r : ρ)

/-- The atomic object and the threads that use it. -/
structure Object (σ : Type u) (τ : Type v) (ι : Type w) (ρ : Type x) where
  state : σ
  stage : τ → Stage ι ρ

namespace Object

/-- No operation is under way. -/
def idle (s : σ) : Object σ τ ι ρ := ⟨s, fun _ => .idle⟩

variable [DecidableEq τ]

/-- Thread `t` comes to another stage. -/
def move (t : τ) (p : Stage ι ρ) (X : Object σ τ ι ρ) : Object σ τ ι ρ :=
  { X with stage := fun u => if u = t then p else X.stage u }

/-- The operation `i` of thread `t` takes effect. -/
def takeEffect (apply : σ → ι → σ × ρ) (t : τ) (i : ι) (X : Object σ τ ι ρ) :
    Object σ τ ι ρ :=
  { X.move t (.answered (apply X.state i).2) with state := (apply X.state i).1 }

theorem move_stage (t : τ) (p : Stage ι ρ) (X : Object σ τ ι ρ) (u : τ) :
    (X.move t p).stage u = if u = t then p else X.stage u := rfl

@[simp] theorem move_stage_self (t : τ) (p : Stage ι ρ) (X : Object σ τ ι ρ) :
    (X.move t p).stage t = p := if_pos rfl

theorem takeEffect_stage (apply : σ → ι → σ × ρ) (t : τ) (i : ι) (X : Object σ τ ι ρ) (u : τ) :
    (X.takeEffect apply t i).stage u =
      if u = t then .answered (apply X.state i).2 else X.stage u := rfl

end Object

variable [DecidableEq τ]

/-- The paths of the atomic object. -/
inductive Path (apply : σ → ι → σ × ρ) :
    Object σ τ ι ρ → List (Mark τ ι ρ) → Object σ τ ι ρ → Prop
  | nil (X : Object σ τ ι ρ) : Path apply X [] X
  | invoke {X Y : Object σ τ ι ρ} {ms : List (Mark τ ι ρ)} {t : τ} (i : ι) :
      X.stage t = .idle → Path apply (X.move t (.invoked i)) ms Y →
      Path apply X (.invoke t i :: ms) Y
  | takeEffect {X Y : Object σ τ ι ρ} {ms : List (Mark τ ι ρ)} {t : τ} {i : ι} :
      X.stage t = .invoked i → Path apply (X.takeEffect apply t i) ms Y →
      Path apply X (.takeEffect t i (apply X.state i).2 :: ms) Y
  | respond {X Y : Object σ τ ι ρ} {ms : List (Mark τ ι ρ)} {t : τ} {r : ρ} :
      X.stage t = .answered r → Path apply (X.move t .idle) ms Y →
      Path apply X (.respond t r :: ms) Y

variable {apply : σ → ι → σ × ρ} {X Y Z : Object σ τ ι ρ} {ms ns : List (Mark τ ι ρ)}

theorem Path.append (h : Path apply X ms Y) (h' : Path apply Y ns Z) :
    Path apply X (ms ++ ns) Z := by
  induction h with
  | nil X => exact h'
  | invoke i hstage _ ih => exact .invoke i hstage (ih h')
  | takeEffect hstage _ ih => exact .takeEffect hstage (ih h')
  | respond hstage _ ih => exact .respond hstage (ih h')

/-- An operation from its invocation to its answer, with nothing in between. -/
theorem Path.whole {t : τ} (i : ι) (h : X.stage t = .idle) :
    Path apply X [.invoke t i, .takeEffect t i (apply X.state i).2,
      .respond t (apply X.state i).2] ⟨(apply X.state i).1, X.stage⟩ := by
  have hend : ((((X.move t (.invoked i)).takeEffect apply t i).move t .idle)) =
      ⟨(apply X.state i).1, X.stage⟩ := by
    refine congrArg (Object.mk _) (funext fun u => ?_)
    by_cases hu : u = t
    · rw [if_pos hu, hu, h]
    · rw [if_neg hu, Object.takeEffect_stage, if_neg hu, Object.move_stage, if_neg hu]
  refine .invoke i h (.takeEffect (Object.move_stage_self _ _ _) (.respond ?_ (hend ▸ .nil _)))
  rw [Object.takeEffect_stage, if_pos rfl]
  rfl

/-- **Linearizable**: the atomic object has the history. -/
def Linearizable (apply : σ → ι → σ × ρ) (s : σ) (h : List (Event τ ι ρ)) : Prop :=
  ∃ ms Y, Path apply (.idle s) ms Y ∧ ms.filterMap Mark.seen = h

/-! ## §2 The serial run -/

/-- The operations one after the other, with their answers. -/
def Serial (apply : σ → ι → σ × ρ) : σ → List (τ × ι × ρ) → σ → Prop
  | s, [], s' => s = s'
  | s, (_, i, r) :: es, s' => (apply s i).2 = r ∧ Serial apply (apply s i).1 es s'

/-- **The operations in the order of their instants are a serial run.** -/
theorem Path.serial (h : Path apply X ms Y) :
    Serial apply X.state (ms.filterMap Mark.effect) Y.state := by
  induction h with
  | nil X => rfl
  | invoke i _ _ ih => exact ih
  | takeEffect _ _ ih => exact ⟨rfl, ih⟩
  | respond _ _ ih => exact ih

/-- The operations of thread `t` that a history completes, with their answers.
The option is the operation under way. -/
def completed (t : τ) : Option ι → List (Event τ ι ρ) → List (ι × ρ)
  | _, [] => []
  | o, .invoke u i :: h => if u = t then completed t (some i) h else completed t o h
  | o, .respond u r :: h =>
      if u = t then
        match o with
        | some i => (i, r) :: completed t none h
        | none => completed t none h
      else completed t o h

/-- What a thread has completed it has invoked. -/
theorem mem_completed {t : τ} {i : ι} {r : ρ} : ∀ (h : List (Event τ ι ρ)) {o : Option ι},
    (i, r) ∈ completed t o h → o = some i ∨ Event.invoke t i ∈ h := by
  intro h
  induction h with
  | nil => exact fun hmem => absurd hmem List.not_mem_nil
  | cons e h ih =>
    intro o hmem
    cases e with
    | invoke u j =>
      by_cases hu : u = t
      · rw [completed, if_pos hu] at hmem
        subst hu
        rcases ih hmem with hj | hin
        · cases hj
          exact .inr List.mem_cons_self
        · exact .inr (List.mem_cons_of_mem _ hin)
      · rw [completed, if_neg hu] at hmem
        exact (ih hmem).imp id (List.mem_cons_of_mem _)
    | respond u q =>
      by_cases hu : u = t
      · simp only [completed, if_pos hu] at hmem
        cases o with
        | none => exact (ih hmem).imp id (List.mem_cons_of_mem _)
        | some j =>
          rcases List.mem_cons.mp hmem with heq | hmem
          · cases heq
            exact .inl rfl
          · rcases ih hmem with hnone | hin
            · cases hnone
            · exact .inr (List.mem_cons_of_mem _ hin)
      · simp only [completed, if_neg hu] at hmem
        exact (ih hmem).imp id (List.mem_cons_of_mem _)

/-- The operations of thread `t` in a serial run. -/
def ofThread (t : τ) (es : List (τ × ι × ρ)) : List (ι × ρ) :=
  es.filterMap fun e => if e.1 = t then some e.2 else none

theorem ofThread_cons (t u : τ) (x : ι × ρ) (es : List (τ × ι × ρ)) :
    ofThread t ((u, x) :: es) = if u = t then x :: ofThread t es else ofThread t es := by
  unfold ofThread
  split <;> rename_i hu <;> simp [hu]

/-- What a thread still gets to see of its operation, by its stage. -/
def Stage.awaits (t : τ) (h : List (Event τ ι ρ)) (es : List (ι × ρ)) : Stage ι ρ → Prop
  | .idle => ∀ o, completed t o h = es
  | .invoked i => completed t (some i) h = es
  | .answered r => ∀ i, completed t (some i) h = (i, r) :: es

omit [DecidableEq τ] in
theorem seen_takeEffect (t : τ) (i : ι) (r : ρ) :
    (Mark.takeEffect t i r :: ms).filterMap Mark.seen = ms.filterMap Mark.seen :=
  List.filterMap_cons_none rfl

omit [DecidableEq τ] in
theorem effect_takeEffect (t : τ) (i : ι) (r : ρ) :
    (Mark.takeEffect t i r :: ms).filterMap Mark.effect =
      (t, i, r) :: ms.filterMap Mark.effect :=
  List.filterMap_cons_some rfl

/-- An event of another thread changes nothing for a thread. -/
theorem Stage.awaits_other {t : τ} {p : Stage ι ρ} {h h' : List (Event τ ι ρ)}
    {es : List (ι × ρ)} (hawaits : p.awaits t h es)
    (hother : ∀ o, Atomic.completed t o h' = Atomic.completed t o h) : p.awaits t h' es := by
  cases p with
  | idle => exact fun o => (hother o).trans (hawaits o)
  | invoked i => exact (hother (some i)).trans hawaits
  | answered r => exact fun i => (hother (some i)).trans (hawaits i)

/-- The effects of a thread are the operations it sees completed, in its order. -/
theorem Path.awaits (t : τ) (h : Path apply X ms Y) (hY : Y.stage t = .idle) :
    (X.stage t).awaits t (ms.filterMap Mark.seen) (ofThread t (ms.filterMap Mark.effect)) := by
  induction h with
  | nil X =>
    rw [hY]
    exact fun _ => rfl
  | @invoke X Y ms u i hstage _ ih =>
    have ih := ih hY
    rw [Object.move_stage] at ih
    by_cases hu : t = u
    · subst hu
      rw [if_pos rfl] at ih
      rw [hstage]
      exact fun _ => (if_pos rfl).trans ih
    · rw [if_neg hu] at ih
      exact Stage.awaits_other ih fun o => if_neg (Ne.symm hu)
  | @takeEffect X Y ms u i hstage _ ih =>
    have ih := ih hY
    rw [Object.takeEffect_stage] at ih
    rw [seen_takeEffect, effect_takeEffect, ofThread_cons]
    by_cases hu : t = u
    · subst hu
      rw [if_pos rfl] at ih
      rw [hstage, if_pos rfl]
      exact ih i
    · rw [if_neg hu] at ih
      rw [if_neg (Ne.symm hu)]
      exact ih
  | @respond X Y ms u r hstage _ ih =>
    have ih := ih hY
    rw [Object.move_stage] at ih
    by_cases hu : t = u
    · subst hu
      rw [if_pos rfl] at ih
      rw [hstage]
      exact fun i => (if_pos rfl).trans (congrArg ((i, r) :: ·) (ih none))
    · rw [if_neg hu] at ih
      exact Stage.awaits_other ih fun o => if_neg (Ne.symm hu)

/-- **Program order**: a thread that is idle at both ends has its operations in
the serial run in the order and with the answers it saw. -/
theorem Path.completed {t : τ} (h : Path apply X ms Y) (hX : X.stage t = .idle)
    (hY : Y.stage t = .idle) :
    ofThread t (ms.filterMap Mark.effect) =
      Atomic.completed t none (ms.filterMap Mark.seen) := by
  have hawaits := h.awaits t hY
  rw [hX] at hawaits
  exact (hawaits none).symm

/-! ## §3 Simulation -/

section Simulation

variable {κ : Type y} {α : Type z}

/-- The events of a run. -/
def history (next : κ → α → κ) (sees : κ → α → List (Event τ ι ρ)) : κ → List α →
    List (Event τ ι ρ)
  | _, [] => []
  | k, a :: as => sees k a ++ history next sees (next k a) as

/-- **Simulation rule**: a machine whose every step is a path of the atomic
object with the same events has a path for every run. -/
theorem Path.simulation {next : κ → α → κ} {ok : κ → α → Prop}
    {sees : κ → α → List (Event τ ι ρ)} {R : κ → Object σ τ ι ρ → Prop}
    (hstep : ∀ k a X, R k X → ok k a → ∃ ms Y, Path apply X ms Y ∧
      ms.filterMap Mark.seen = sees k a ∧ R (next k a) Y) :
    ∀ (as : List α) (k : κ) (X : Object σ τ ι ρ), R k X → Along next ok k as →
      ∃ ms Y, Path apply X ms Y ∧ ms.filterMap Mark.seen = history next sees k as ∧
        R (Runs.exec next k as) Y := by
  intro as
  induction as with
  | nil => exact fun k X hR _ => ⟨[], X, .nil X, rfl, hR⟩
  | cons a as ih =>
    intro k X hR hrun
    obtain ⟨ms, Y, hpath, hseen, hY⟩ := hstep k a X hR hrun.1
    obtain ⟨ns, Z, hrest, hseen', hZ⟩ := ih (next k a) Y hY hrun.2
    refine ⟨ms ++ ns, Z, hpath.append hrest, ?_, hZ⟩
    rw [List.filterMap_append, hseen, hseen']
    rfl

end Simulation

/-! ## §4 Views -/

section Views

variable {α : Type y} {ν : Type z}

/-- A specification, as a relation, of what the operations do one after the other. -/
inductive Traced (T : α → τ × ι × ρ → α → Prop) : α → List (τ × ι × ρ) → α → Prop
  | nil (a : α) : Traced T a [] a
  | cons {a b d : α} {e : τ × ι × ρ} {es : List (τ × ι × ρ)} :
      T a e b → Traced T b es d → Traced T a (e :: es) d

/-- **View rule**: every thread has a view of the object, from what it has done
itself, and a rule it keeps to in its view. If an operation that keeps to the rule
of its thread meets the specification, whatever the views of the others, then the
threads together meet it. -/
theorem Serial.views {next : ν → ι × ρ → ν} {ok : τ → ν → ι × ρ → Prop}
    {R : σ → (τ → ν) → α → Prop} {T : α → τ × ι × ρ → α → Prop}
    (hstep : ∀ s V a t i, R s V a → ok t (V t) (i, (apply s i).2) →
      ∃ b, T a (t, i, (apply s i).2) b ∧
        R (apply s i).1 (Function.update V t (next (V t) (i, (apply s i).2))) b) :
    ∀ (es : List (τ × ι × ρ)) {s s' : σ} {V : τ → ν} {a : α}, R s V a →
      Serial apply s es s' → (∀ t, Along next (ok t) (V t) (ofThread t es)) →
      ∃ b, Traced T a es b ∧ R s' (fun t => Runs.exec next (V t) (ofThread t es)) b := by
  intro es
  induction es with
  | nil =>
    intro s s' V a hR hserial _
    cases (hserial : s = s')
    exact ⟨a, .nil a, hR⟩
  | cons e es ih =>
    obtain ⟨t, i, r⟩ := e
    intro s s' V a hR hserial hviews
    obtain ⟨hr, hrest⟩ := hserial
    subst hr
    have hself := hviews t
    rw [ofThread_cons, if_pos rfl] at hself
    obtain ⟨b, hb, hRb⟩ := hstep s V a t i hR hself.1
    -- the views after the operation, on what is left of each thread
    have hview : ∀ u, Along next (ok u) (Function.update V t (next (V t) (i, (apply s i).2)) u)
        (ofThread u es) := by
      intro u
      have hu := hviews u
      by_cases htu : t = u
      · subst htu
        rw [Function.update_self]
        exact hself.2
      · rw [ofThread_cons, if_neg htu] at hu
        rw [Function.update_of_ne (Ne.symm htu)]
        exact hu
    have hend : ∀ u, Runs.exec next (V u) (ofThread u ((t, i, (apply s i).2) :: es)) =
        Runs.exec next (Function.update V t (next (V t) (i, (apply s i).2)) u)
          (ofThread u es) := by
      intro u
      rw [ofThread_cons]
      by_cases htu : t = u
      · subst htu
        rw [if_pos rfl, Function.update_self, Runs.exec_cons]
      · rw [if_neg htu, Function.update_of_ne (Ne.symm htu)]
    obtain ⟨d, htrace, hRd⟩ := ih hRb hrest hview
    refine ⟨d, .cons hb htrace, ?_⟩
    rwa [funext hend]

end Views

end Atomic
