import LEDMessageBoard.LineEditor
import LEDMessageBoard.Semantics.Row

/-! Typing a line: the buffer and the terminal of the client follow the line that the keys
describe. -/
namespace LEDMessageBoard.Typing
open General General.Blocks Config LibCli Telnet Semantics LineEditor

/-- A character that moves the cursor of a terminal by one column. -/
def Glyph (c : UInt8) : Prop := 0x20 ≤ c ∧ c ≠ 0x7F

instance (c : UInt8) : Decidable (Glyph c) := inferInstanceAs (Decidable (0x20 ≤ c ∧ c ≠ 0x7F))

theorem Glyph.ne {c : UInt8} (glyph : Glyph c) : c ≠ 0 ∧ c ≠ 7 ∧ c ≠ 8 := by
  have low := UInt8.le_iff_toNat_le.mp glyph.1
  refine ⟨?_,?_,?_⟩
  all_goals
    intro same
    subst same
    simp at low

section Terminal

def put (row : Row UInt8) (c : UInt8) : Row UInt8 :=
  if c = 8 then row.back 1 else if c = 7 then row else row.typed [c]

/-- What a terminal makes of the bytes that are sent to it. -/
def write (row : Row UInt8) (echo : Bytes) : Row UInt8 := echo.foldl put row

theorem write_append (row : Row UInt8) (first second : Bytes) :
    write row (first ++ second) = write (write row first) second := List.foldl_append

private theorem write_glyphs (row : Row UInt8) (run : Bytes) (glyphs : ∀ c ∈ run, Glyph c) :
    write row run = row.typed run := by
  induction run generalizing row with
  | nil => exact (row.typed_nil).symm
  | cons c rest ih =>
    obtain ⟨_,bell,back⟩ := (glyphs c (by simp)).ne
    have first : put row c = row.typed [c] := by simp [put,bell,back]
    rw [row.typed_cons,← first]
    exact ih (put row c) (fun other member => glyphs other (by simp [member]))

private theorem write_backspaces (row : Row UInt8) (count : Nat) : write row (backspaces count) = row.back count := by
  induction count generalizing row with
  | zero => exact row.back_zero.symm
  | succ count ih =>
    have first : write row (backspaces (count + 1)) = write (row.back 1) (backspaces count) := rfl
    rw [first,ih,row.back_back,Nat.add_comm]

private theorem write_blanks (row : Row UInt8) (count : Nat) : write row (blanks count) = row.typed (blanks count) := by
  apply write_glyphs
  intro c member
  have blank := List.eq_of_mem_replicate member
  subst blank
  decide

end Terminal

section Buffers

/-- The buffer holds a text and is zero behind it. -/
def Holds (b : Buffer) (text : Bytes) : Prop := b.bytes = padded 0 maxLineLength text

variable {b : Buffer} {held : Bytes}

theorem Holds.zeros : Holds .zeros [] := by
  simp [Holds,Buffer.zeros,padded]

theorem Holds.store (holds : Holds b held) (start : Nat) (run : Bytes) (reaches : start ≤ held.length)
    (inside : start + run.length ≤ maxLineLength) :
    ∃ stored, b.store start run = some stored ∧
      Holds stored (held.take start ++ run ++ held.drop (start + run.length)) := by
  refine ⟨_,dif_pos inside,?_⟩
  rw [Holds,← overwrite_padded 0 maxLineLength held start run reaches inside,← holds]

theorem Holds.fetch (holds : Holds b held) (start count : Nat) (inside : start + count ≤ maxLineLength) :
    b.fetch start count = some (padded 0 count (held.drop start)) := by
  rw [Buffer.fetch,if_pos inside,holds,padded_slice 0 maxLineLength held start count inside]

theorem Holds.fetch_rest (holds : Holds b held) (start : Nat) (inside : held.length ≤ maxLineLength)
    (reaches : start ≤ held.length) : b.fetch start (held.length - start) = some (held.drop start) := by
  rw [holds.fetch start _ (by omega),padded_of_fits 0 _ _ (by simp)]
  simp

theorem Holds.zeros_behind (holds : Holds b held) {front : Bytes} (count : Nat)
    (ends : held = front ++ List.replicate count 0) : Holds b front := by
  rw [Holds,holds,ends,padded_zeros]

theorem Holds.string (holds : Holds b held) (start : Nat) (reaches : start ≤ held.length)
    (inside : held.length < maxLineLength) (typed : 0 ∉ held) : b.string start = some (held.drop start) := by
  have rest : b.bytes.drop start = held.drop start ++ 0 :: List.replicate (maxLineLength - held.length - 1) 0 := by
    have zeros : maxLineLength - held.length = maxLineLength - held.length - 1 + 1 := by omega
    rw [holds,padded_of_fits 0 _ _ (by omega),List.drop_append_of_le_length reaches,← List.replicate_succ,← zeros]
  have ends : 0 ∈ b.bytes.drop start := by
    rw [rest]
    simp
  rw [Buffer.string,if_pos ends,rest]
  rw [cString_terminated _ _ fun member => typed (List.mem_of_mem_drop member)]

end Buffers

/-- The variables of the loop hold the line: the buffer its text, `l` and `cursor` its
length and its place. -/
structure Shows (e : Editor) (line : EditLine UInt8) : Prop where
  cmd : Holds e.cmd line.text
  l : e.l = line.text.length
  cursor : e.cursor = line.before.length
  glyphs : ∀ c ∈ line.text, Glyph c
  room : line.text.length ≤ maxLineLength - 2

theorem Shows.fresh : Shows .fresh .empty :=
  ⟨Holds.zeros,rfl,rfl,by simp [EditLine.empty,EditLine.text],by simp [EditLine.empty,EditLine.text]⟩

/-- A key that edits the line leads from one line to another, in the loop and on the
terminal. -/
def Edits (out : Option (Editor × Bytes)) (line next : EditLine UInt8) : Prop :=
  ∃ e echo, out = some (e,echo) ∧ Shows e next ∧
    ∀ start row, Row.Reads 0x20 start row line → Row.Reads 0x20 start (write row echo) next

section Keys

variable {e : Editor} {before after : Bytes}

theorem Edits.stays {line : EditLine UInt8} (shows : Shows e line) : Edits (some (e,[])) line line :=
  ⟨e,[],rfl,shows,fun _ _ reads => reads⟩

theorem Edits.bell {line : EditLine UInt8} (shows : Shows e line) : Edits (some (e,LineEditor.bell)) line line :=
  ⟨e,LineEditor.bell,rfl,shows,fun _ _ reads => reads⟩

private theorem reads_back (before : Bytes) {start : Nat} {row : Row UInt8} {passed : Bytes}
    (reads : Row.Reads 0x20 start row ⟨before ++ passed,after⟩) (count : Nat) (size : count = passed.length) :
    Row.Reads 0x20 start (write row (backspaces count)) ⟨before,passed ++ after⟩ := by
  rw [write_backspaces,size]
  exact reads.back

theorem reads_run {start : Nat} {row : Row UInt8} (reads : Row.Reads 0x20 start row ⟨before,after⟩) (run : Bytes)
    (glyphs : ∀ c ∈ run, Glyph c) :
    Row.Reads 0x20 start (write row run) ⟨before ++ run,after.drop run.length⟩ := by
  rw [write_glyphs row run glyphs]
  exact reads.typed run

/-- As many blanks as the line has behind its place clear it from there. -/
theorem reads_blanks {start : Nat} {row : Row UInt8} (reads : Row.Reads 0x20 start row ⟨before,after⟩) (count : Nat)
    (size : count = after.length) :
    Row.Reads 0x20 start (write row (blanks count)) ⟨before ++ blanks count,[]⟩ := by
  have across := reads.typed (blanks count)
  have gone : after.drop (blanks count).length = [] := by simp [blanks,size]
  rw [gone] at across
  rw [write_blanks]
  exact across

private theorem reads_trimmed {start : Nat} {row : Row UInt8} {behind : Bytes}
    (reads : Row.Reads 0x20 start row ⟨before,behind⟩)
    (count : Nat) (ends : behind = after ++ blanks count) : Row.Reads 0x20 start row ⟨before,after⟩ := by
  subst ends
  exact reads.trimmed

private theorem erase_last {last : UInt8} (shows : Shows e ⟨before ++ [last],[]⟩) :
    Edits (e.eraseOnce false) ⟨before ++ [last],[]⟩ ⟨before,[]⟩ := by
  obtain ⟨cmd,l,cursor,glyphs,room⟩ := shows
  simp only [EditLine.text,List.append_nil,List.length_append,List.length_singleton] at cmd l cursor glyphs room
  obtain ⟨stored,write_done,holds⟩ := cmd.store before.length [0] (by simp) (by simp [maxLineLength] at room ⊢; omega)
  have shorter : Holds stored before := by
    apply holds.zeros_behind 1
    simp
  refine ⟨{e with cmd := stored,l := e.l - 1,cursor := e.cursor - 1},[8,0x20,8],?_,?_,?_⟩
  · simp [Editor.eraseOnce,l,cursor,write_done]
  · refine ⟨by simpa [EditLine.text] using shorter,by simp [EditLine.text]; omega,by simp; omega,?_,?_⟩
    · intro c member
      exact glyphs c (by simp only [EditLine.text,List.append_nil] at member; simp [member])
    · simp only [EditLine.text,List.append_nil]
      omega
  · intro start row reads
    have first := reads_back before reads 1 rfl
    have blank := reads_blanks first 1 (by simp)
    have second := reads_back before blank 1 (by simp [blanks])
    exact reads_trimmed second 1 (by simp)

private theorem erase_inner {last : UInt8} (shows : Shows e ⟨before ++ [last],after⟩) (inner : after ≠ []) :
    Edits (e.eraseOnce false) ⟨before ++ [last],after⟩ ⟨before,after⟩ := by
  obtain ⟨cmd,l,cursor,glyphs,room⟩ := shows
  have positive := List.length_pos_iff.mpr inner
  simp only [EditLine.text,List.length_append,List.length_singleton,maxLineLength] at cmd l cursor glyphs room
  have after_glyphs : ∀ c ∈ after, Glyph c := fun c member => glyphs c (by simp [member])
  have moved : e.cmd.fetch (before.length + 1) (after.length + 2) = some (after ++ [0,0]) := by
    have rest : (before ++ [last] ++ after).drop (before.length + 1) = after := List.drop_left' (by simp)
    have zeros : after.length + 2 - after.length = 2 := by omega
    rw [cmd.fetch _ _ (by simp only [maxLineLength]; omega),rest,padded_of_fits 0 _ _ (by omega),zeros]
    rfl
  obtain ⟨stored,write_done,holds⟩ := cmd.store before.length (after ++ [0,0]) (by simp)
    (by simp [maxLineLength]; omega)
  have shorter : Holds stored (before ++ after) := by
    apply holds.zeros_behind 2
    simp [List.append_assoc]
  have short : (before ++ after).length < maxLineLength := by
    simp only [List.length_append,maxLineLength]
    omega
  have typed : 0 ∉ before ++ after := by
    intro zero
    have glyph : Glyph 0 := by
      apply glyphs 0
      simp only [List.mem_append] at zero ⊢
      grind
    exact absurd rfl glyph.ne.1
  have rest : stored.string before.length = some after := by
    rw [shorter.string before.length (by simp) short typed]
    simp
  have place : e.cursor - 1 = before.length := by omega
  have size : e.l - before.length + 1 = after.length + 2 := by omega
  have inside : ¬e.l = e.cursor := by omega
  refine ⟨{e with cmd := stored,l := e.l - 1,cursor := before.length},
    [8] ++ after ++ [0x20] ++ backspaces (after.length + 1),?_,?_,?_⟩
  · simp [Editor.eraseOnce,inside,place,size,moved,write_done,rest]
  · refine ⟨shorter,by simp [EditLine.text]; omega,rfl,?_,?_⟩
    · intro c member
      apply glyphs c
      simp only [EditLine.text,List.mem_append] at member ⊢
      grind
    · simp only [EditLine.text,List.length_append,maxLineLength]
      omega
  · intro start row reads
    have first := reads_back before reads 1 rfl
    have across := reads_run first after after_glyphs
    have blank := reads_blanks across 1 (by simp)
    rw [List.append_assoc] at blank
    have second := reads_back before blank (after.length + 1) (by simp [blanks])
    rw [write_append,write_append,write_append]
    exact reads_trimmed second 1 (by simp)

theorem Edits.once (shows : Shows e ⟨before,after⟩) (left : before ≠ []) :
    Edits (e.eraseOnce false) ⟨before,after⟩ (EditLine.erase ⟨before,after⟩ 1) := by
  have whole := List.dropLast_append_getLast left
  have shorter : EditLine.erase ⟨before,after⟩ 1 = ⟨before.dropLast,after⟩ := by
    simp [EditLine.erase,List.dropLast_eq_take]
  rw [shorter]
  rw [← whole] at shows
  by_cases inner : after = []
  · subst inner
    have last := erase_last shows
    rwa [whole] at last
  · have deeper := erase_inner shows inner
    rwa [whole] at deeper

theorem Edits.back (count : Nat) (shows : Shows e ⟨before,after⟩) (enough : count ≤ before.length) :
    Edits (e.eraseBack false count) ⟨before,after⟩ (EditLine.erase ⟨before,after⟩ count) := by
  induction count generalizing e before with
  | zero =>
    rw [EditLine.erase_zero]
    exact .stays shows
  | succ count ih =>
    have left : before ≠ [] := List.length_pos_iff.mp (by omega)
    obtain ⟨middle,first,done,middle_shows,first_reads⟩ := Edits.once shows left
    obtain ⟨last,others,rest_done,last_shows,rest_reads⟩ := ih middle_shows (by simp; omega)
    rw [EditLine.erase_succ]
    refine ⟨last,first ++ others,?_,last_shows,?_⟩
    · simp [Editor.eraseBack,done,rest_done]
    · intro start row reads
      rw [write_append]
      exact rest_reads start _ (first_reads start row reads)

theorem Edits.eraseChar {line : EditLine UInt8} (shows : Shows e line) :
    Edits (e.eraseChar false) line (line.erase 1) := by
  obtain ⟨before,after⟩ := line
  have l := shows.l
  have cursor := shows.cursor
  simp only [EditLine.text,List.length_append] at l cursor
  unfold Editor.eraseChar
  split
  next start =>
    have empty : before = [] := List.eq_nil_of_length_eq_zero (by omega)
    subst empty
    exact .bell shows
  next inside => exact .back 1 shows (by omega)

theorem Edits.eraseWord {line : EditLine UInt8} (shows : Shows e line) :
    Edits (e.eraseWord false) line (line.eraseWord isBlank) := by
  obtain ⟨before,after⟩ := line
  have l := shows.l
  have cursor := shows.cursor
  have room := shows.room
  simp only [EditLine.text,List.length_append,maxLineLength] at l cursor room
  unfold Editor.eraseWord
  split
  next start =>
    have empty : before = [] := List.eq_nil_of_length_eq_zero (by omega)
    subst empty
    exact .stays shows
  next inside =>
    have front : e.cmd.fetch 0 e.cursor = some before := by
      have fits : before.length ≤ maxLineLength := by
        simp only [maxLineLength]
        omega
      rw [shows.cmd.fetch 0 _ (by omega),cursor,List.drop_zero,padded,EditLine.text,List.take_left]
      simp
    rw [front]
    exact .back _ shows (EditLine.wordBack_le isBlank before)

/-- The three runs of `cli_clear_line` are three times as long as the line. -/
theorem clearLine_wipes {held : Bytes} (holds : Holds e.cmd held) (l : e.l = held.length)
    (fits : 3 * e.l ≤ maxLineLength) :
    ∃ cmd, e.clearLine = some (cmd,blanks (e.l - e.cursor) ++ (backspaces e.l ++ blanks e.l ++ backspaces e.l)) ∧
      Holds cmd [] := by
  have size : (backspaces e.l ++ blanks e.l ++ backspaces e.l).length = 3 * e.l := by
    simp only [backspaces,blanks,List.length_append,List.length_replicate]
    omega
  have behind : held.drop (0 + (backspaces e.l ++ blanks e.l ++ backspaces e.l).length) = [] :=
    List.drop_eq_nil_of_le (by omega)
  obtain ⟨wiped,wipe,wiped_holds⟩ := holds.store 0 (backspaces e.l ++ blanks e.l ++ backspaces e.l) (by omega) (by omega)
  rw [behind,List.take_zero,List.nil_append,List.append_nil] at wiped_holds
  obtain ⟨zeroed,zero,zeroed_holds⟩ := wiped_holds.store 0
    (List.replicate (backspaces e.l ++ blanks e.l ++ backspaces e.l).length 0) (by omega)
    (by rw [List.length_replicate]; omega)
  refine ⟨zeroed,by simp only [Editor.clearLine,wipe,Option.bind_eq_bind,Option.bind_some,zero,Option.pure_def],?_⟩
  apply zeroed_holds.zeros_behind ((backspaces e.l ++ blanks e.l ++ backspaces e.l).length)
  rw [List.length_replicate,List.drop_eq_nil_of_le (by omega)]
  simp

/-- Outside its array `cli_clear_line` has no result. -/
theorem clearLine_leaves (e : Editor) (long : maxLineLength < 3 * e.l) : e.clearLine = none := by
  have outside : ¬0 + (backspaces e.l ++ blanks e.l ++ backspaces e.l).length ≤ maxLineLength := by
    simp only [backspaces,blanks,List.length_append,List.length_replicate]
    omega
  have fails : e.cmd.store 0 (backspaces e.l ++ blanks e.l ++ backspaces e.l) = none := dif_neg outside
  simp only [Editor.clearLine,fails,Option.bind_eq_bind,Option.bind_none]

theorem reads_cleared {start : Nat} {row : Row UInt8} (reads : Row.Reads 0x20 start row ⟨before,after⟩)
    (l : e.l = before.length + after.length) (cursor : e.cursor = before.length) :
    Row.Reads 0x20 start (write row (blanks (e.l - e.cursor) ++ (backspaces e.l ++ blanks e.l ++ backspaces e.l)))
      ⟨[],[]⟩ := by
  have tail := reads_blanks reads (e.l - e.cursor) (by omega)
  have first := reads_back [] tail e.l (by simp [blanks]; omega)
  have across := reads_blanks first e.l (by simp [blanks]; omega)
  have second := reads_back [] across e.l (by simp [blanks])
  rw [write_append,write_append,write_append]
  exact reads_trimmed second e.l (by simp)

theorem Edits.clear {line : EditLine UInt8} (shows : Shows e line) (fits : 3 * line.text.length ≤ maxLineLength) :
    Edits (e.clear false) line .empty := by
  obtain ⟨before,after⟩ := line
  obtain ⟨cmd,l,cursor,glyphs,room⟩ := shows
  obtain ⟨zeroed,done,empty⟩ := clearLine_wipes cmd l (by omega)
  refine ⟨{e with cmd := zeroed,l := 0,cursor := 0},
    blanks (e.l - e.cursor) ++ (backspaces e.l ++ blanks e.l ++ backspaces e.l),by simp [Editor.clear,done],?_,?_⟩
  · exact ⟨empty,rfl,rfl,by simp [EditLine.empty,EditLine.text],by simp [EditLine.empty,EditLine.text]⟩
  · intro start row reads
    exact reads_cleared reads (by simpa [EditLine.text] using l) cursor

theorem Edits.kill {line : EditLine UInt8} (shows : Shows e line) : Edits (e.kill false) line line.kill := by
  obtain ⟨before,after⟩ := line
  have whole := shows
  obtain ⟨cmd,l,cursor,glyphs,room⟩ := shows
  simp only [EditLine.text,List.length_append] at l cursor room
  unfold Editor.kill
  split
  next last =>
    have empty : after = [] := List.eq_nil_of_length_eq_zero (by omega)
    subst empty
    exact .stays whole
  next inside =>
    have count : e.l - e.cursor = after.length := by omega
    obtain ⟨stored,write_done,holds⟩ := cmd.store e.cursor (List.replicate (e.l - e.cursor) 0)
      (by simp [EditLine.text]; omega) (by simp only [List.length_replicate,maxLineLength] at room ⊢; omega)
    have shorter : Holds stored before := by
      apply holds.zeros_behind (e.l - e.cursor)
      rw [cursor,EditLine.text,List.take_left,List.drop_eq_nil_of_le (by simp; omega),List.append_nil]
    refine ⟨{e with cmd := stored,l := e.cursor},blanks (e.l - e.cursor) ++ backspaces (e.l - e.cursor),?_,?_,?_⟩
    · simp [write_done]
    · refine ⟨by simpa [EditLine.kill,EditLine.text] using shorter,by simpa [EditLine.kill,EditLine.text] using cursor,
        cursor,?_,?_⟩
      · intro c member
        exact glyphs c (by simp only [EditLine.kill,EditLine.text,List.append_nil] at member; simp [EditLine.text,member])
      · simp only [EditLine.kill,EditLine.text,List.append_nil]
        omega
    · intro start row reads
      have blank := reads_blanks reads (e.l - e.cursor) count
      have second := reads_back before blank (e.l - e.cursor) (by simp [blanks])
      rw [write_append]
      exact reads_trimmed second (e.l - e.cursor) (by simp)

theorem Shows.moved {line next : EditLine UInt8} (shows : Shows e line) (same : next.text = line.text) (cursor : Nat)
    (place : cursor = next.before.length) : Shows {e with cursor := cursor} next := by
  obtain ⟨cmd,l,_,glyphs,room⟩ := shows
  rw [← same] at cmd l glyphs room
  exact ⟨cmd,l,place,glyphs,room⟩

theorem Edits.moveLeft {line : EditLine UInt8} (shows : Shows e line) : Edits (e.moveLeft false) line line.left := by
  have moved := shows.moved line.left_text
  obtain ⟨before,after⟩ := line
  have cursor := shows.cursor
  unfold Editor.moveLeft
  dsimp only at cursor
  split
  next start =>
    have empty : before = [] := List.eq_nil_of_length_eq_zero (by omega)
    subst empty
    exact .stays shows
  next inside =>
    have left : before ≠ [] := List.length_pos_iff.mp (by omega)
    have whole := List.dropLast_append_getLast left
    have next : EditLine.left ⟨before,after⟩ = ⟨before.dropLast,[before.getLast left] ++ after⟩ := by
      simp [EditLine.left,List.getLast?_eq_some_getLast left]
    refine ⟨{e with cursor := e.cursor - 1},[8],rfl,moved (e.cursor - 1) (by simp [EditLine.left]; omega),?_⟩
    intro start row reads
    rw [← whole] at reads
    rw [next]
    exact reads_back before.dropLast reads 1 rfl

theorem Edits.moveRight {line : EditLine UInt8} (shows : Shows e line) : Edits (e.moveRight false) line line.right := by
  have moved := shows.moved line.right_text
  obtain ⟨before,after⟩ := line
  obtain ⟨cmd,l,cursor,glyphs,room⟩ := shows
  simp only [EditLine.text,List.length_append,maxLineLength] at l cursor room
  unfold Editor.moveRight
  split
  next inside =>
    cases after with
    | nil => simp at l; omega
    | cons c rest =>
      have shown : e.cmd.fetch e.cursor 1 = some [c] := by
        rw [cmd.fetch _ _ (by simp only [maxLineLength,List.length_cons] at room ⊢; omega),cursor,EditLine.text,
          List.drop_left]
        simp [padded]
      refine ⟨{e with cursor := e.cursor + 1},[c],by simp [shown],moved (e.cursor + 1) (by simp [EditLine.right]; omega),?_⟩
      intro start row reads
      have across := reads_run reads [c] (by simpa using glyphs c (by simp [EditLine.text]))
      simpa [EditLine.right] using across
  next last =>
    have empty : after = [] := List.eq_nil_of_length_eq_zero (by omega)
    subst empty
    have same : EditLine.right ⟨before,([] : Bytes)⟩ = ⟨before,[]⟩ := by simp [EditLine.right]
    rw [same]
    exact .stays ⟨cmd,by simpa [EditLine.text] using l,cursor,glyphs,by simpa [EditLine.text,maxLineLength] using room⟩

theorem Edits.moveHome {line : EditLine UInt8} (shows : Shows e line) : Edits (e.moveHome false) line line.home := by
  have cursor := shows.cursor
  have same : line.home.text = line.text := rfl
  refine ⟨{e with cursor := 0},backspaces e.cursor,rfl,shows.moved same 0 rfl,?_⟩
  intro start row reads
  exact reads_back [] reads e.cursor cursor

theorem Edits.moveEnd {line : EditLine UInt8} (shows : Shows e line) : Edits (e.moveEnd false) line line.toEnd := by
  have same : line.toEnd.text = line.text := by simp [EditLine.toEnd,EditLine.text]
  have moved := shows.moved same
  obtain ⟨before,after⟩ := line
  have whole := shows
  obtain ⟨cmd,l,cursor,glyphs,room⟩ := shows
  unfold Editor.moveEnd
  split
  next inside =>
    have shown : e.cmd.fetch e.cursor (e.l - e.cursor) = some after := by
      rw [l,cmd.fetch_rest _ (by omega) (by omega),cursor,EditLine.text,List.drop_left]
    refine ⟨{e with cursor := e.l},after,by simp [shown],moved e.l l,?_⟩
    intro start row reads
    have across := reads_run reads after (fun c member => glyphs c (by simp [EditLine.text,member]))
    simpa [EditLine.toEnd,EditLine.text] using across
  next last =>
    simp only [EditLine.text,List.length_append] at l cursor
    have empty : after = [] := List.eq_nil_of_length_eq_zero (by omega)
    subst empty
    have stays : EditLine.toEnd ⟨before,([] : Bytes)⟩ = ⟨before,[]⟩ := by simp [EditLine.toEnd,EditLine.text]
    rw [stays]
    exact .stays whole

/-- The same of a key that may also end the line. -/
def Presses (out : Option (Editor × Bytes × Next)) (line next : EditLine UInt8) : Prop :=
  ∃ e echo, out = some (e,echo,.more) ∧ Shows e next ∧
    ∀ start row, Row.Reads 0x20 start row line → Row.Reads 0x20 start (write row echo) next

private theorem Edits.presses {out : Option (Editor × Bytes)} {line next : EditLine UInt8} (edits : Edits out line next) :
    Presses (out.map fun (e,echo) => (e,echo,Next.more)) line next := by
  obtain ⟨e,echo,done,shows,reads⟩ := edits
  subst done
  exact ⟨e,echo,rfl,shows,reads⟩

private theorem glyphs_inserted {c : UInt8} (glyph : Glyph c) (glyphs : ∀ c ∈ EditLine.text ⟨before,after⟩, Glyph c) :
    ∀ other ∈ EditLine.text (EditLine.insert ⟨before,after⟩ c), Glyph other := by
  intro other member
  simp only [EditLine.insert,EditLine.text,List.mem_append,List.mem_singleton] at member glyphs
  obtain (front | same) | rear := member
  · exact glyphs other (Or.inl front)
  · exact same ▸ glyph
  · exact glyphs other (Or.inr rear)

theorem Shows.inserted {c : UInt8} (shows : Shows e ⟨before,after⟩) (glyph : Glyph c)
    (room : before.length + after.length < maxLineLength - 2) {stored : Buffer} (holds : Holds stored (before ++ c :: after)) :
    Shows {e with cmd := stored,l := e.l + 1,cursor := e.cursor + 1,lastchar := c} (EditLine.insert ⟨before,after⟩ c) := by
  have glyphs := glyphs_inserted glyph shows.glyphs
  obtain ⟨_,l,cursor,_,_⟩ := shows
  simp only [EditLine.text,List.length_append] at l cursor
  refine ⟨by simpa [EditLine.insert,EditLine.text] using holds,?_,by simpa [EditLine.insert] using cursor,glyphs,?_⟩
  · simp only [EditLine.insert,EditLine.text,List.length_append,List.length_singleton]
    omega
  · simp only [EditLine.insert,EditLine.text,List.length_append,List.length_singleton]
    omega

theorem insert_last_stores (hidden : Bool) (c : UInt8) (shows : Shows e ⟨before,[]⟩) :
    ∃ stored, Holds stored (before ++ [c]) ∧ e.insert hidden c =
      some (Editor.typed hidden c {e with cmd := stored,l := e.l + 1,cursor := e.cursor + 1} []) := by
  obtain ⟨cmd,l,cursor,_,room⟩ := shows
  simp only [EditLine.text,List.append_nil,maxLineLength] at cmd l cursor room
  obtain ⟨stored,write_done,holds⟩ := cmd.store before.length [c] (by omega)
    (by simp only [List.length_singleton,maxLineLength]; omega)
  have longer : Holds stored (before ++ [c]) := by
    rw [List.take_length,List.drop_eq_nil_of_le (by omega),List.append_nil] at holds
    exact holds
  have last : e.cursor = e.l := by omega
  have below : e.l < maxLineLength - 1 := by
    simp only [maxLineLength]
    omega
  have place : e.l = before.length := by omega
  refine ⟨stored,longer,?_⟩
  simp [Editor.insert,last,place ▸ below,place,write_done]

theorem Presses.append {c : UInt8} (shows : Shows e ⟨before,[]⟩) (glyph : Glyph c) (asks : c ≠ 0x3F)
    (room : before.length < maxLineLength - 2) :
    Presses (e.insert false c) ⟨before,[]⟩ (EditLine.insert ⟨before,[]⟩ c) := by
  obtain ⟨stored,longer,done⟩ := insert_last_stores false c shows
  have typed : e.insert false c =
      some ({e with cmd := stored,l := e.l + 1,cursor := e.cursor + 1,lastchar := c},[c],.more) := by
    rw [done]
    simp [Editor.typed,asks]
  refine ⟨_,_,typed,shows.inserted glyph (by simpa using room) longer,?_⟩
  intro start row reads
  exact reads_run reads [c] (by simpa using glyph)

/-- Before the end of the line a character is echoed with what follows it, hidden or not. -/
theorem insert_inner_stores (hidden : Bool) (c : UInt8) (shows : Shows e ⟨before,after⟩) (inner : after ≠ [])
    (room : before.length + after.length < maxLineLength - 2) :
    ∃ stored, Holds stored (before ++ c :: after) ∧ e.insert hidden c =
      some (Editor.typed hidden c {e with cmd := stored,l := e.l + 1,cursor := e.cursor + 1}
        ((c :: after) ++ backspaces (after.length + 1))) := by
  obtain ⟨cmd,l,cursor,glyphs,_⟩ := shows
  have positive := List.length_pos_iff.mpr inner
  simp only [EditLine.text,List.length_append,maxLineLength] at cmd l cursor glyphs room
  have moved : e.cmd.fetch before.length (after.length + 1) = some (after ++ [0]) := by
    have zeros : after.length + 1 - after.length = 1 := by omega
    rw [cmd.fetch _ _ (by simp only [maxLineLength]; omega),List.drop_left,padded_of_fits 0 _ _ (by omega),zeros]
    rfl
  obtain ⟨stored,write_done,holds⟩ := cmd.store before.length (c :: (after ++ [0])) (by simp)
    (by simp only [List.length_cons,List.length_append,List.length_nil,maxLineLength]; omega)
  have longer : Holds stored (before ++ c :: after) := by
    apply holds.zeros_behind 1
    rw [List.take_left,List.drop_eq_nil_of_le (by simp; omega)]
    simp
  have shown : stored.fetch before.length (after.length + 1) = some (c :: after) := by
    rw [longer.fetch _ _ (by simp only [maxLineLength]; omega),List.drop_left,padded_of_fits 0 _ _ (by simp)]
    simp
  have inside : ¬before.length = before.length + after.length := by omega
  have below : ¬maxLineLength - 2 ≤ before.length + after.length := by
    simp only [maxLineLength]
    omega
  have size : before.length + after.length - before.length + 1 = after.length + 1 := by omega
  refine ⟨stored,longer,?_⟩
  simp only [Editor.insert,cursor,l,inside,if_false,below,size,moved,Option.bind_eq_bind,Option.bind_some,write_done,
    shown,Option.pure_def]

private theorem Presses.insert_inner {c : UInt8} (shows : Shows e ⟨before,after⟩) (glyph : Glyph c) (inner : after ≠ [])
    (room : before.length + after.length < maxLineLength - 2) :
    Presses (e.insert false c) ⟨before,after⟩ (EditLine.insert ⟨before,after⟩ c) := by
  obtain ⟨stored,longer,done⟩ := insert_inner_stores false c shows inner room
  have next := shows.inserted glyph room longer
  obtain ⟨_,l,cursor,glyphs,_⟩ := shows
  have positive := List.length_pos_iff.mpr inner
  simp only [EditLine.text,List.length_append] at l cursor glyphs
  have after_glyphs : ∀ c ∈ after, Glyph c := fun c member => glyphs c (by simp [member])
  have later : ¬e.cursor + 1 = e.l + 1 := by omega
  have typed : e.insert false c =
      some ({e with cmd := stored,l := e.l + 1,cursor := e.cursor + 1,lastchar := c},
        (c :: after) ++ backspaces (after.length + 1) ++ [c],.more) := by
    rw [done]
    simp only [Editor.typed,Bool.false_eq_true,if_false,later,and_false]
  refine ⟨_,_,typed,next,?_⟩
  intro start row reads
  have across := reads_run reads (c :: after) (by simpa using ⟨glyph,after_glyphs⟩)
  have gone : after.drop (c :: after).length = [] := List.drop_eq_nil_of_le (by simp)
  rw [gone] at across
  have back := reads_back before across (after.length + 1) (by simp)
  have final := reads_run back [c] (by simpa using glyph)
  rw [write_append,write_append]
  simpa [EditLine.insert] using final

end Keys

/-- What a key means for the line. -/
def meant (c : UInt8) (line : EditLine UInt8) : EditLine UInt8 :=
  if c = ctrl 0x57 then line.eraseWord isBlank
  else if c = ctrl 0x48 ∨ c = 0x7F then line.erase 1
  else if c = ctrl 0x55 then .empty
  else if c = ctrl 0x4B then line.kill
  else if c = ctrl 0x42 then line.left
  else if c = ctrl 0x46 then line.right
  else if c = ctrl 0x41 then line.home
  else if c = ctrl 0x45 then line.toEnd
  else line.insert c

def isEditKey (c : UInt8) : Bool :=
  c = ctrl 0x57 ∨ c = ctrl 0x48 ∨ c = 0x7F ∨ c = ctrl 0x55 ∨ c = ctrl 0x4B ∨ c = ctrl 0x42 ∨ c = ctrl 0x46 ∨
    c = ctrl 0x41 ∨ c = ctrl 0x45

/-- A key stays in the buffer and does not end the line. -/
def Admits (line : EditLine UInt8) (c : UInt8) : Prop :=
  (isEditKey c = true ∧ (c = ctrl 0x55 → 3 * line.text.length ≤ maxLineLength)) ∨
    (Glyph c ∧ line.text.length < maxLineLength - 2 ∧ (c = 0x3F → line.after ≠ []))

instance (line : EditLine UInt8) (c : UInt8) : Decidable (Admits line c) :=
  inferInstanceAs (Decidable (_ ∨ _))

theorem Presses.inserted {e : Editor} {line : EditLine UInt8} {c : UInt8} (shows : Shows e line) (glyph : Glyph c)
    (room : line.text.length < maxLineLength - 2) (asks : c = 0x3F → line.after ≠ []) :
    Presses (e.insert false c) line (line.insert c) := by
  obtain ⟨before,after⟩ := line
  by_cases last : after = []
  · subst last
    exact .append shows glyph (fun same => asks same rfl) (by simpa [EditLine.text] using room)
  · exact .insert_inner shows glyph last (by simpa [EditLine.text] using room)

theorem press_presses {e : Editor} {line : EditLine UInt8} {c : UInt8} (shows : Shows e line) (admits : Admits line c) :
    Presses (e.press false c) line (meant c line) := by
  unfold Editor.press meant
  dsimp only
  split
  next => exact (Edits.eraseWord shows).presses
  split
  next => exact (Edits.eraseChar shows).presses
  split
  next same =>
    obtain ⟨_,fits⟩ | ⟨glyph,_⟩ := admits
    · exact (Edits.clear shows (fits same)).presses
    · subst same
      exact absurd glyph (by decide)
  split
  next => exact (Edits.kill shows).presses
  split
  next => exact (Edits.moveLeft shows).presses
  split
  next => exact (Edits.moveRight shows).presses
  split
  next => exact (Edits.moveHome shows).presses
  split
  next => exact (Edits.moveEnd shows).presses
  next word char clear kill left right home last =>
    obtain ⟨edits,_⟩ | ⟨glyph,room,asks⟩ := admits
    · simp [isEditKey,word,not_or.mp char,clear,kill,left,right,home,last] at edits
    · exact .inserted shows glyph room asks

end LEDMessageBoard.Typing
