import Mathlib.Logic.Function.Basic

/-! What a message board is for: slots that are blank or show a text, and requests
that each set one of them. -/
namespace LEDMessageBoard.Semantics

variable {ι τ : Type} [DecidableEq ι]

/-- `none` is a blank slot. -/
abbrev Display (ι τ : Type) : Type := ι → Option τ

namespace Display

def request (display : Display ι τ) (change : ι × Option τ) : Display ι τ :=
  Function.update display change.1 change.2

def run (display : Display ι τ) (changes : List (ι × Option τ)) : Display ι τ :=
  changes.foldl request display

theorem run_snoc (display : Display ι τ) (changes : List (ι × Option τ)) (change : ι × Option τ) :
    run display (changes ++ [change]) = request (run display changes) change := by
  simp [run]

theorem request_same (display : Display ι τ) (change : ι × Option τ) :
    request display change change.1 = change.2 := Function.update_self ..

theorem request_other (display : Display ι τ) (change : ι × Option τ) (slot : ι) (other : slot ≠ change.1) :
    request display change slot = display slot := Function.update_of_ne other ..

theorem run_other (display : Display ι τ) (changes : List (ι × Option τ)) (slot : ι)
    (others : ∀ change ∈ changes, slot ≠ change.1) : run display changes slot = display slot := by
  induction changes generalizing display with
  | nil => rfl
  | cons change rest ih =>
    have tail := ih (request display change) (fun other member => others other (by simp [member]))
    exact tail.trans (request_other display change slot (others change (by simp)))

theorem run_congr (first second : Display ι τ) (changes : List (ι × Option τ)) (slot : ι)
    (same : first slot = second slot) : run first changes slot = run second changes slot := by
  induction changes generalizing first second with
  | nil => exact same
  | cons change rest ih =>
    apply ih (request first change) (request second change)
    by_cases named : slot = change.1
    · subst named
      rw [request_same,request_same]
    · rw [request_other _ _ _ named,request_other _ _ _ named,same]

/-- A slot shows what the last request for it asked for. -/
theorem run_last (display : Display ι τ) (before after : List (ι × Option τ)) (change : ι × Option τ)
    (later : ∀ other ∈ after, change.1 ≠ other.1) :
    run display (before ++ [change] ++ after) change.1 = change.2 := by
  have split : run display (before ++ [change] ++ after) = run (run display (before ++ [change])) after :=
    List.foldl_append
  rw [split,run_other _ _ _ later,run_snoc,request_same]

end Display

end LEDMessageBoard.Semantics
