import Mathlib.Algebra.Ring.Int.Defs
import Mathlib.Algebra.Ring.Nat

/-! A number of elements that is moved in rounds, each of which moves as many as it happens
to have room for, or none, or ends the whole. -/
namespace LEDMessageBoard.General.Transfer

variable {ε : Type}

inductive Round (ε : Type) where
  | idle
  | givesUp
  | fails (error : ε)
  | accepts (count : Nat)

/-- How it came to the end; `waits` where more rounds have to follow. -/
inductive Ending (ε : Type) where
  | waits
  | complete
  | gaveUp
  | failed (error : ε)

/-- From a number of elements on: the number at the end. -/
def transfer (size : Nat) (moved : Nat) : List (Round ε) → Nat × Ending ε
  | [] => (moved,if moved < size then .waits else .complete)
  | round :: later =>
    if moved < size then
      match round with
      | .idle => transfer size moved later
      | .givesUp => (moved,.gaveUp)
      | .fails error => (moved,.failed error)
      | .accepts count => transfer size (moved + min count (size - moved)) later
    else (moved,.complete)

theorem transfer_complete (rounds : List (Round ε)) (size : Nat) : transfer size size rounds = (size,.complete) := by
  cases rounds with
  | nil => simp [transfer]
  | cons round later => simp [transfer]

theorem transfer_bounds (rounds : List (Round ε)) {size moved : Nat} (inside : moved ≤ size) :
    moved ≤ (transfer size moved rounds).1 ∧ (transfer size moved rounds).1 ≤ size := by
  fun_induction transfer size moved rounds with
  | case1 => exact ⟨Nat.le_refl _,inside⟩
  | case2 _ _ _ ih => exact ih inside
  | case3 => exact ⟨Nat.le_refl _,inside⟩
  | case4 => exact ⟨Nat.le_refl _,inside⟩
  | case5 moved later below count ih =>
    have further := ih (by omega)
    exact ⟨by omega,further.2⟩
  | case6 => exact ⟨Nat.le_refl _,inside⟩

theorem complete_iff (rounds : List (Round ε)) {size moved : Nat} (inside : moved ≤ size) :
    (transfer size moved rounds).2 = .complete ↔ (transfer size moved rounds).1 = size := by
  fun_induction transfer size moved rounds with
  | case1 moved =>
    split
    next below => simp; omega
    next => simp; omega
  | case2 _ _ _ ih => exact ih inside
  | case3 => simp; omega
  | case4 => simp; omega
  | case5 moved later below count ih => exact ih (by omega)
  | case6 => simp; omega

/-- The round that made an end of it early. -/
def Ending.cause : Ending ε → Option (Round ε)
  | .waits | .complete => none
  | .gaveUp => some .givesUp
  | .failed error => some (.fails error)

theorem cause_met (rounds : List (Round ε)) {size moved : Nat} {round : Round ε}
    (caused : (transfer size moved rounds).2.cause = some round) : round ∈ rounds := by
  fun_induction transfer size moved rounds with
  | case1 =>
    split at caused
    next => cases caused
    next => cases caused
  | case2 _ _ _ ih => exact List.mem_cons_of_mem _ (ih caused)
  | case3 =>
    cases caused
    exact List.mem_cons_self
  | case4 =>
    cases caused
    exact List.mem_cons_self
  | case5 _ _ _ _ ih => exact List.mem_cons_of_mem _ (ih caused)
  | case6 => cases caused

def Round.room : Round ε → Nat
  | .accepts count => count
  | _ => 0

def Round.goesOn : Round ε → Prop
  | .idle | .accepts _ => True
  | .givesUp | .fails _ => False

/-- Room enough in rounds that go on is enough, however it is spread. -/
theorem transfer_enough (rounds : List (Round ε)) {size moved : Nat} (inside : moved ≤ size)
    (on : ∀ round ∈ rounds, round.goesOn) (enough : size ≤ moved + (rounds.map Round.room).sum) :
    transfer size moved rounds = (size,.complete) := by
  fun_induction transfer size moved rounds with
  | case1 moved =>
    simp at enough
    have whole : moved = size := Nat.le_antisymm inside enough
    simp [whole]
  | case2 moved later below ih =>
    apply ih inside (fun round member => on round (List.mem_cons_of_mem _ member))
    simpa [Round.room] using enough
  | case3 moved later below => exact (on .givesUp List.mem_cons_self).elim
  | case4 moved later below error => exact (on (.fails error) List.mem_cons_self).elim
  | case5 moved later below count ih =>
    have following : ∀ round ∈ later, round.goesOn := fun round member => on round (List.mem_cons_of_mem _ member)
    simp only [List.map_cons,List.sum_cons,Round.room] at enough
    obtain few | many := Nat.le_total count (size - moved)
    · rw [Nat.min_eq_left few] at ih ⊢
      exact ih (by omega) following (by omega)
    · rw [Nat.min_eq_right many,Nat.add_sub_of_le inside]
      exact transfer_complete later size
  | case6 moved later below =>
    have whole : moved = size := by omega
    rw [whole]

end LEDMessageBoard.General.Transfer
