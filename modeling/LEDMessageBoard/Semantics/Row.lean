import LEDMessageBoard.Semantics.EditLine

/-! A row of a terminal: cells, and the column of the cursor. A terminal shows a line where
its cells from a column on are the text of the line and then blanks. -/
namespace LEDMessageBoard.Semantics

structure Row (α : Type) where
  cells : Nat → α
  column : Nat

namespace Row

variable {α : Type}

/-- Puts a run of elements over what the row has at the cursor. -/
def typed (row : Row α) (run : List α) : Row α :=
  ⟨fun i => if row.column ≤ i then run[i - row.column]?.getD (row.cells i) else row.cells i,row.column + run.length⟩

def back (row : Row α) (count : Nat) : Row α := {row with column := row.column - count}

theorem typed_nil (row : Row α) : row.typed [] = row := by
  simp [typed]

theorem typed_cons (row : Row α) (value : α) (rest : List α) :
    row.typed (value :: rest) = (row.typed [value]).typed rest := by
  unfold typed
  congr 1
  · ext i
    dsimp only
    by_cases here : i = row.column
    · have behind : ¬row.column + 1 ≤ row.column := by omega
      subst here
      simp [behind]
    · by_cases behind : row.column ≤ i
      · have later : row.column + 1 ≤ i := by omega
        have index : i - row.column = (i - (row.column + 1)) + 1 := by omega
        simp only [behind,later,if_true,List.length_singleton,index,List.getElem?_cons_succ,List.getElem?_nil,Option.getD_none]
      · simp [behind,show ¬row.column + 1 ≤ i by omega]
  · simp only [List.length_cons,List.length_nil]
    omega

theorem back_back (row : Row α) (first second : Nat) : (row.back first).back second = row.back (first + second) := by
  simp only [back,Nat.sub_sub]

theorem back_zero (row : Row α) : row.back 0 = row := rfl

/-- From column `start` on the row shows the line, with the cursor at its place. -/
structure Reads (blank : α) (start : Nat) (row : Row α) (line : EditLine α) : Prop where
  column : row.column = start + line.before.length
  cells : ∀ i, row.cells (start + i) = line.text[i]?.getD blank

variable {blank : α} {start : Nat} {row : Row α}

theorem Reads.typed {before after : List α} (reads : Reads blank start row ⟨before,after⟩) (run : List α) :
    Reads blank start (row.typed run) ⟨before ++ run,after.drop run.length⟩ := by
  refine ⟨?_,?_⟩
  · have column := reads.column
    simp only [Row.typed,column,List.length_append]
    omega
  · intro i
    have shown := reads.cells i
    simp only [EditLine.text] at shown
    simp only [Row.typed,EditLine.text,reads.column]
    by_cases front : i < before.length
    · have outside : ¬start + before.length ≤ start + i := by omega
      rw [if_neg outside,shown,List.getElem?_append_left front,List.append_assoc,List.getElem?_append_left front]
    · have index : start + i - (start + before.length) = i - before.length := by omega
      rw [if_pos (by omega),index,List.append_assoc,List.getElem?_append_right (by omega),shown,
        List.getElem?_append_right (by omega)]
      by_cases covered : i - before.length < run.length
      · rw [List.getElem?_append_left covered,List.getElem?_eq_getElem covered]
        rfl
      · have rest : run.length + (i - before.length - run.length) = i - before.length := by omega
        rw [List.getElem?_eq_none (by omega : run.length ≤ i - before.length),List.getElem?_append_right (by omega),
          List.getElem?_drop,rest]
        rfl

theorem Reads.back {before passed after : List α} (reads : Reads blank start row ⟨before ++ passed,after⟩) :
    Reads blank start (row.back passed.length) ⟨before,passed ++ after⟩ := by
  refine ⟨?_,?_⟩
  · have column := reads.column
    simp only [List.length_append] at column
    simp only [Row.back,column]
    omega
  · have cells := reads.cells
    simp only [EditLine.text,List.append_assoc] at cells
    exact cells

/-- Blanks behind a text are not to be told from an empty row. -/
theorem Reads.trimmed {before after : List α} {count : Nat}
    (reads : Reads blank start row ⟨before,after ++ List.replicate count blank⟩) :
    Reads blank start row ⟨before,after⟩ := by
  refine ⟨reads.column,?_⟩
  intro i
  rw [reads.cells i]
  simp only [EditLine.text,← List.append_assoc]
  by_cases inside : i < (before ++ after).length
  · rw [List.getElem?_append_left inside]
  · rw [List.getElem?_append_right (by omega),List.getElem?_eq_none (by omega : (before ++ after).length ≤ i),
      List.getElem?_replicate]
    split <;> rfl

end Row

end LEDMessageBoard.Semantics
