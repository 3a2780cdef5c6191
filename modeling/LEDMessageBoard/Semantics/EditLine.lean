import Mathlib.Data.List.Basic

/-! What a line editor is for: a text with a place in it where the next element goes. -/
namespace LEDMessageBoard.Semantics

structure EditLine (α : Type) where
  before : List α
  after : List α

namespace EditLine

variable {α : Type}

def empty : EditLine α := ⟨[],[]⟩

def text (line : EditLine α) : List α := line.before ++ line.after

def insert (line : EditLine α) (value : α) : EditLine α := ⟨line.before ++ [value],line.after⟩

/-- Takes away the elements before the place. -/
def erase (line : EditLine α) (count : Nat) : EditLine α :=
  ⟨line.before.take (line.before.length - count),line.after⟩

/-- How many elements the word before the place has, with the blanks behind it. -/
def wordBack (blank : α → Bool) (before : List α) : Nat :=
  let behind := before.reverse.dropWhile blank
  (before.reverse.takeWhile blank).length + (behind.takeWhile fun value => !blank value).length

def eraseWord (blank : α → Bool) (line : EditLine α) : EditLine α := line.erase (wordBack blank line.before)

def kill (line : EditLine α) : EditLine α := ⟨line.before,[]⟩

def left (line : EditLine α) : EditLine α :=
  ⟨line.before.dropLast,line.before.getLast?.toList ++ line.after⟩

def right (line : EditLine α) : EditLine α := ⟨line.before ++ line.after.take 1,line.after.drop 1⟩

def home (line : EditLine α) : EditLine α := ⟨[],line.text⟩

def toEnd (line : EditLine α) : EditLine α := ⟨line.text,[]⟩

theorem insert_text_length (line : EditLine α) (value : α) : (line.insert value).text.length = line.text.length + 1 := by
  simp only [text,insert,List.length_append,List.length_singleton]
  omega

theorem erase_succ (line : EditLine α) (count : Nat) : line.erase (count + 1) = (line.erase 1).erase count := by
  have size : (line.before.take (line.before.length - 1)).length = line.before.length - 1 := by simp
  simp only [erase,size]
  rw [List.take_take]
  congr 2
  omega

theorem erase_zero (line : EditLine α) : line.erase 0 = line := by
  simp [erase]

theorem left_text (line : EditLine α) : line.left.text = line.text := by
  unfold left text
  cases shown : line.before.getLast? with
  | none =>
    rw [List.getLast?_eq_none_iff.mp shown]
    rfl
  | some last =>
    have whole : line.before.dropLast ++ [last] = line.before := List.dropLast_append_getLast? last (by simp [shown])
    rw [Option.toList_some,← List.append_assoc,whole]

theorem right_text (line : EditLine α) : line.right.text = line.text := by
  rw [right,text,List.append_assoc,List.take_append_drop,text]

theorem wordBack_le (blank : α → Bool) (before : List α) : wordBack blank before ≤ before.length := by
  have whole := congrArg List.length (List.takeWhile_append_dropWhile (p := blank) (l := before.reverse))
  have part := (List.takeWhile_sublist (fun value => !blank value) (l := before.reverse.dropWhile blank)).length_le
  rw [List.length_append,List.length_reverse] at whole
  unfold wordBack
  dsimp only
  omega

end EditLine

end LEDMessageBoard.Semantics
