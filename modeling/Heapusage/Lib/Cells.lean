/-
Heapusage.Lib.Cells — machines whose state is a family of independent cells.

Every input names one cell, and a step changes that cell alone, as a function
of what it holds (`Cellular`). Then a cell after a run is what the inputs that
name it make of it (`Cellular.cell_exec`): it depends on nothing else of the
run (`Cellular.cell_congr`), and inputs that name different cells may change
places (`Cellular.cell_swap`).

`Inv` is an invariant of the machine under which its steps have this form.
-/
import Heapusage.Lib.Run

namespace Cells

open Runs

universe u v w x

variable {σ : Type u} {ι : Type v} {κ : Type w} {α : Type x}

/-- The steps of `next` are steps of single cells. -/
structure Cellular (next : σ → ι → σ) (Inv : σ → Prop) (key : ι → κ) (cell : σ → κ → α)
    (step : α → ι → α) : Prop where
  keeps : ∀ s i, Inv s → Inv (next s i)
  own : ∀ s i, Inv s → cell (next s i) (key i) = step (cell s (key i)) i
  other : ∀ s i k, Inv s → k ≠ key i → cell (next s i) k = cell s k

namespace Cellular

variable [DecidableEq κ] {next : σ → ι → σ} {Inv : σ → Prop} {key : ι → κ} {cell : σ → κ → α}
  {step : α → ι → α}

/-- **A cell after a run.** -/
theorem cell_exec (h : Cellular next Inv key cell step) (k : κ) (is : List ι) :
    ∀ s : σ, Inv s →
      cell (exec next s is) k = (is.filter fun i => key i = k).foldl step (cell s k) := by
  induction is with
  | nil => intro s _; rfl
  | cons i is ih =>
    intro s hs
    rw [exec_cons, ih (next s i) (h.keeps s i hs)]
    by_cases hk : key i = k
    · subst hk
      simp [h.own s i hs]
    · simp [hk, h.other s i k hs (Ne.symm hk)]

/-- Runs with the same inputs for a cell leave the same in it. -/
theorem cell_congr (h : Cellular next Inv key cell step) {k : κ} {is js : List ι} {s : σ}
    (hs : Inv s) (hsame : (is.filter fun i => key i = k) = js.filter fun i => key i = k) :
    cell (exec next s is) k = cell (exec next s js) k := by
  rw [h.cell_exec k is s hs, h.cell_exec k js s hs, hsame]

/-- Inputs that name different cells may change places. -/
theorem cell_swap (h : Cellular next Inv key cell step) {i j : ι} (hij : key i ≠ key j)
    (before after : List ι) {s : σ} (hs : Inv s) (k : κ) :
    cell (exec next s (before ++ i :: j :: after)) k =
      cell (exec next s (before ++ j :: i :: after)) k := by
  refine h.cell_congr hs ?_
  by_cases hi : key i = k
  · have hj : key j ≠ k := fun hj => hij (hi.trans hj.symm)
    simp [hi, hj]
  · simp [List.filter_cons, hi]

end Cellular

end Cells
