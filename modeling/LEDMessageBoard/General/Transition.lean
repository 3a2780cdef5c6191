/-! Systems that move from state to state, and what holds in every run of them. -/
namespace LEDMessageBoard.General

/-- The steps of a system, each under the label of what happens. -/
abbrev System (σ ι : Type) : Type := σ → ι → σ → Prop

namespace System

variable {σ ι : Type} {system : System σ ι}

inductive Run (system : System σ ι) (first : σ) : List ι → σ → Prop where
  | start : Run system first [] first
  | next {labels : List ι} {middle last : σ} {label : ι} (before : Run system first labels middle)
    (step : system middle label last) : Run system first (labels ++ [label]) last

theorem Run.induct {first : σ} (fact : List ι → σ → Prop) (begun : fact [] first)
    (kept : ∀ labels middle label last, fact labels middle → system middle label last → fact (labels ++ [label]) last)
    {labels : List ι} {last : σ} (run : Run system first labels last) : fact labels last := by
  induction run with
  | start => exact begun
  | next before step ih => exact kept _ _ _ _ ih step

theorem Run.cons {first middle last : σ} {label : ι} {labels : List ι} (step : system first label middle)
    (run : Run system middle labels last) : Run system first (label :: labels) last := by
  induction run with
  | start => exact Run.start.next step
  | next before after ih => exact ih.next after

/-- What every step preserves holds throughout a run. -/
theorem Run.invariant {first : σ} (holds : σ → Prop)
    (kept : ∀ middle label last, holds middle → system middle label last → holds last)
    {labels : List ι} {last : σ} (run : Run system first labels last) (begun : holds first) : holds last :=
  run.induct (fun _ state => holds state) begun fun _ middle label last held step => kept middle label last held step

/-- The steps that stay among the states with a property. -/
def within (system : System σ ι) (holds : σ → Prop) : System σ ι :=
  fun first label last => holds first ∧ system first label last ∧ holds last

/-- A run into the states with a property has a step that enters them for the last time. -/
theorem Run.entered {first last : σ} {labels : List ι} (holds : σ → Prop) (run : Run system first labels last)
    (outside : ¬holds first) (inside : holds last) :
    ∃ before label after middle entered, labels = before ++ label :: after ∧ Run system first before middle ∧
      ¬holds middle ∧ system middle label entered ∧ holds entered ∧ Run (system.within holds) entered after last := by
  induction run with
  | start => exact absurd inside outside
  | @next labels previous last label run step ih =>
    by_cases held : holds previous
    · obtain ⟨before,entry,after,middle,entered,same,front,out,enters,here,rear⟩ := ih held
      exact ⟨before,entry,after ++ [label],middle,entered,by rw [same,List.append_assoc,List.cons_append],front,out,enters,here,
        rear.next ⟨held,step,inside⟩⟩
    · exact ⟨labels,label,[],previous,last,rfl,run,held,step,inside,.start⟩

theorem Run.append {first middle last : σ} {front rear : List ι} (before : Run system first front middle)
    (after : Run system middle rear last) : Run system first (front ++ rear) last := by
  induction after with
  | start =>
    rw [List.append_nil]
    exact before
  | next run step ih =>
    rw [← List.append_assoc]
    exact ih.next step

end System

end LEDMessageBoard.General
