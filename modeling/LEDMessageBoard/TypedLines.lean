import LEDMessageBoard.KeyRuns
import Mathlib.Data.List.TakeDrop

/-! A line that a client types: what its terminal shows before the line is entered is what
the session runs. -/
namespace LEDMessageBoard.TypedLines
open General General.Transducer Config Cli LibCli Telnet Semantics LineEditor Completion Filters CliLoop Typing KeyRuns

private theorem key_edits {access : Access} {s : Session} {line : EditLine UInt8} {c : UInt8} (visible : s.hidden = false)
    (shows : Shows s.editor line) (admits : Admits line c) :
    ∃ editor echo, s.key access c = some ⟨some {s with editor := editor},echo,none,[]⟩ ∧ Shows editor (meant c line) ∧
      ∀ start row, Row.Reads 0x20 start row line → Row.Reads 0x20 start (write row echo) (meant c line) := by
  obtain ⟨editor,echo,pressed,after,reads⟩ := press_presses shows admits
  refine ⟨editor,echo,?_,after,reads⟩
  rw [key_press (admits.imp And.left And.left),visible,pressed]
  rfl

def Admitted (line : EditLine UInt8) : Bytes → Prop
  | [] => True
  | c :: rest => Admits line c ∧ Admitted (meant c line) rest

def Admitted.decide : (line : EditLine UInt8) → (keys : Bytes) → Decidable (Admitted line keys)
  | _, [] => isTrue trivial
  | line, c :: rest =>
    have : Decidable (Admitted (meant c line) rest) := Admitted.decide (meant c line) rest
    inferInstanceAs (Decidable (Admits line c ∧ Admitted (meant c line) rest))

instance (line : EditLine UInt8) (keys : Bytes) : Decidable (Admitted line keys) := Admitted.decide line keys

def meantAll (line : EditLine UInt8) (keys : Bytes) : EditLine UInt8 := keys.foldl (fun line c => meant c line) line

/-- A line that can be seen, with the terminal that shows it. -/
def visibleLine (access : Access) : Interaction access (EditLine UInt8) where
  still s := s.hidden = false
  kept _ _ _ visible := visible
  shows := Shows
  next := meant
  admits := Admits
  answers line c echo := ∀ start row, Row.Reads 0x20 start row line → Row.Reads 0x20 start (write row echo) (meant c line)
  key _ _ _ visible shows admits := key_edits visible shows admits

private theorem answered_reads {access : Access} {line : EditLine UInt8} {keys sent : Bytes}
    (answered : (visibleLine access).Answered line keys sent) :
    ∀ start row, Row.Reads 0x20 start row line → Row.Reads 0x20 start (write row sent) (meantAll line keys) := by
  induction answered with
  | nothing => exact fun _ _ reads => reads
  | key first others ih =>
    intro start row reads
    rw [write_append]
    exact ih start _ (first start row reads)

private theorem admitted_visible (access : Access) (line : EditLine UInt8) (keys : Bytes) (admitted : Admitted line keys) :
    (visibleLine access).Admitted line keys := by
  induction keys generalizing line with
  | nil => trivial
  | cons c rest ih => exact ⟨admitted.1,ih _ admitted.2⟩

/-- Bytes that come to keys which the line admits: the session goes on with the line that the
keys mean, and so does the terminal. -/
theorem feed_shows (access : Access) (bytes : Bytes) (s : Session) (line : EditLine UInt8) (visible : s.hidden = false)
    (shows : Shows s.editor line) (admitted : Admitted line (emit decode s.decoder bytes).2) :
    ∃ editor sent, feed access bytes s =
        some ({s with editor := editor,decoder := (emit decode s.decoder bytes).1},sent) ∧
      Shows editor (meantAll line (emit decode s.decoder bytes).2) ∧
      ∀ start row, Row.Reads 0x20 start row line →
        Row.Reads 0x20 start (write row sent) (meantAll line (emit decode s.decoder bytes).2) := by
  obtain ⟨editor,sent,fed,after,answered⟩ :=
    (visibleLine access).feed_runs bytes s line visible shows (admitted_visible access line _ admitted)
  exact ⟨editor,sent,fed,after,answered_reads answered⟩

/-- What `cli_loop` remembers of a line. -/
def remembered (history : List Bytes) (line : Bytes) : List Bytes :=
  if line.getLast? ≠ some 0x3F ∧ ¬sameText line (text "history") then addHistory history line else history

private theorem shows_string {e : Editor} {line : EditLine UInt8} (shows : Shows e line) : e.cmd.string 0 = some line.text := by
  have room := shows.room
  have typed : 0 ∉ line.text := fun zero => (shows.glyphs 0 zero).ne.1 rfl
  rw [shows.cmd.string 0 (Nat.zero_le _) (by simp only [maxLineLength] at room ⊢; omega) typed,List.drop_zero]

theorem again_fresh {s : Session} (sent : Bytes) (call : Option Call) :
    ∃ prompt, s.again false sent call = some ⟨some {s with editor := .fresh},sent,call,prompt⟩ := by
  have prompts : ∃ prompt, ({s with editor := .fresh} : Session).prompt = some prompt := by
    have line : ({s with editor := .fresh} : Session).line = some [] := rfl
    unfold Session.prompt
    rw [line]
    split
    all_goals exact ⟨_,rfl⟩
  obtain ⟨prompt,shown⟩ := prompts
  refine ⟨prompt,?_⟩
  simp [Session.again,Editor.again,Session.prompts,shown]

private theorem command_eq {access : Access} {s : Session} (kept : Bool) (sent : Bytes) {line last : Bytes}
    (typed : ¬s.editor.l = 0)
    (held : s.editor.cmd.string 0 = some line) (ends : s.editor.cmd.fetch (s.editor.l - 1) 1 = some last)
    {history : List Bytes}
    (same : (if last ≠ [0x3F] ∧ ¬sameText line (text "history") then addHistory s.history line else s.history) = history) :
    s.command access kept sent = Session.leave kept sent (({s with history := history} : Session).run access line) := by
  unfold Session.command
  rw [if_neg typed,held]
  simp only [Option.bind_eq_bind,Option.bind_some,ends,same]

/-- The line that is entered is the line that the editor shows. -/
theorem command_runs {access : Access} {s : Session} {line : EditLine UInt8} (shows : Shows s.editor line)
    (some_text : line.text ≠ []) (sent : Bytes) :
    ∃ turn, s.command access false sent = some turn ∧
      turn.call = (({s with history := remembered s.history line.text} : Session).run access line.text).2 ∧
      turn.session = (({s with history := remembered s.history line.text} : Session).run access line.text).1.map
        fun s => {s with editor := .fresh} := by
  have positive := List.length_pos_iff.mpr some_text
  have room := shows.room
  have typed : ¬s.editor.l = 0 := by
    rw [shows.l]
    omega
  have last : s.editor.cmd.fetch (s.editor.l - 1) 1 = some [line.text.getLast some_text] := by
    have rest : line.text.drop (line.text.length - 1) = [line.text.getLast some_text] := List.drop_length_sub_one some_text
    rw [shows.l,shows.cmd.fetch _ _ (by simp only [maxLineLength] at room ⊢; omega),rest]
    rfl
  have history : (if [line.text.getLast some_text] ≠ [0x3F] ∧ ¬sameText line.text (text "history") then
      addHistory s.history line.text else s.history) = remembered s.history line.text := by
    rw [remembered,List.getLast?_eq_some_getLast some_text]
    congr 1
    simp
  rw [command_eq false sent typed (shows_string shows) last history]
  generalize ({s with history := remembered s.history line.text} : Session).run access line.text = ran
  obtain ⟨next,call⟩ := ran
  cases next with
  | none => exact ⟨_,rfl,rfl,rfl⟩
  | some next =>
    obtain ⟨prompt,again⟩ := @again_fresh next sent call
    exact ⟨_,again,rfl,rfl⟩

theorem ready_visible {s : Session} (ready : s.state = .normal ∨ s.state = .enable) : s.hidden = false := by
  unfold Session.hidden
  obtain normal | enable := ready
  · rw [normal]
  · rw [enable]

private theorem ready_enter {access : Access} {s : Session} (ready : s.state = .normal ∨ s.state = .enable) (kept : Bool)
    (sent : Bytes) : s.enter access kept sent = s.command access kept sent := by
  unfold Session.enter
  obtain normal | enable := ready
  · rw [normal]
  · rw [enable]

theorem enter_command (access : Access) {s : Session} (ready : s.state = .normal ∨ s.state = .enable) (rest : s.decoder = .rest) :
    s.input access 0x0D = s.command access false lineEnd := by
  have key : s.input access 0x0D = s.enter access false (if s.hidden then [] else lineEnd) := by
    unfold Session.input
    rw [rest]
    change ({s with decoder := .rest} : Session).key access 0x0D = s.enter access false _
    rw [← rest]
    rfl
  rw [key,ready_visible ready]
  exact ready_enter ready false lineEnd

theorem enter_runs (access : Access) {s : Session} (ready : s.state = .normal ∨ s.state = .enable) (rest : s.decoder = .rest)
    {line : EditLine UInt8} (shows : Shows s.editor line) (some_text : line.text ≠ []) :
    ∃ turn, s.input access 0x0D = some turn ∧
      turn.call = (({s with history := remembered s.history line.text} : Session).run access line.text).2 ∧
      turn.session = (({s with history := remembered s.history line.text} : Session).run access line.text).1.map
        fun s => {s with editor := .fresh} := by
  rw [enter_command access ready rest]
  exact command_runs shows some_text lineEnd

/-- A line as a client types it, with corrections and whatever its terminal puts between the
keys: the terminal shows the line, and the line is what the session runs. -/
theorem shown_line_runs (access : Access) (s : Session) (ready : s.state = .normal ∨ s.state = .enable)
    (line : EditLine UInt8) (shows : Shows s.editor line) (bytes keys : Bytes)
    (decoded : emit decode s.decoder bytes = (.rest,keys)) (admitted : Admitted line keys) :
    ∃ last sent, feed access bytes s = some (last,sent) ∧ last.cli = s.cli ∧ last.state = s.state ∧
      (∀ start row, Row.Reads 0x20 start row line → Row.Reads 0x20 start (write row sent) (meantAll line keys)) ∧
      ((meantAll line keys).text ≠ [] → ∃ turn, last.input access 0x0D = some turn ∧
        turn.call = (({last with history := remembered s.history (meantAll line keys).text} : Session).run access
          (meantAll line keys).text).2 ∧
        turn.session = (({last with history := remembered s.history (meantAll line keys).text} : Session).run access
          (meantAll line keys).text).1.map fun s => {s with editor := .fresh}) := by
  have keyed : (emit decode s.decoder bytes).2 = keys := by rw [decoded]
  obtain ⟨editor,sent,fed,after,reads⟩ :=
    feed_shows access bytes s line (ready_visible ready) shows (by rw [keyed]; exact admitted)
  rw [keyed] at after reads
  refine ⟨_,sent,fed,rfl,rfl,reads,?_⟩
  intro some_text
  rw [decoded]
  exact enter_runs access (s := {s with editor := editor,decoder := .rest}) ready rfl after some_text

def atPrompt : Session := {fresh with state := .normal}

/-- `sho`, an arrow back, `x`, a backspace and the arrow forth. -/
theorem shown_line_runs_sho :
    ∃ last sent, feed (guest [] [] [])
        (text "sho\x1b[Dx\x08\x1b[C") atPrompt = some (last,sent) ∧ last.cli = atPrompt.cli ∧ last.state = atPrompt.state ∧
      (∀ start row, Row.Reads 0x20 start row .empty →
        Row.Reads 0x20 start (write row sent) (meantAll .empty (text "sho\x02x\x08\x06"))) ∧
      ((meantAll .empty (text "sho\x02x\x08\x06")).text ≠ [] → ∃ turn,
        last.input (guest [] [] []) 0x0D = some turn ∧
        turn.call = (({last with history := remembered atPrompt.history (meantAll .empty (text "sho\x02x\x08\x06")).text} :
          Session).run (guest [] [] [])
            (meantAll .empty (text "sho\x02x\x08\x06")).text).2 ∧
        turn.session = (({last with history := remembered atPrompt.history (meantAll .empty (text "sho\x02x\x08\x06")).text} :
          Session).run (guest [] [] [])
            (meantAll .empty (text "sho\x02x\x08\x06")).text).1.map fun s => {s with editor := .fresh}) :=
  shown_line_runs _ atPrompt (.inl rfl) .empty .fresh _ _ (by decide) (by decide)

/-- `CTRL('U')` needs three times the length of the line: on a longer line it writes past the
end of `cmd`. -/
theorem clear_stays_iff (access : Access) (s : Session) (visible : s.hidden = false) (line : EditLine UInt8)
    (shows : Shows s.editor line) (bytes keys : Bytes) (decoded : emit decode s.decoder bytes = (.rest,keys))
    (admitted : Admitted line keys) :
    ∃ last sent, feed access bytes s = some (last,sent) ∧
      ((last.input access (ctrl 0x55)).isSome ↔ 3 * (meantAll line keys).text.length ≤ maxLineLength) := by
  have keyed : (emit decode s.decoder bytes).2 = keys := by rw [decoded]
  obtain ⟨editor,sent,fed,after,_⟩ := feed_shows access bytes s line visible shows (by rw [keyed]; exact admitted)
  rw [keyed] at after
  refine ⟨_,sent,fed,?_⟩
  rw [decoded]
  let last : Session := {s with editor := editor,decoder := .rest}
  change (last.key access (ctrl 0x55)).isSome = true ↔ _
  constructor
  · intro stays
    by_contra long
    have wiped : last.editor.clearLine = none := clearLine_leaves editor (by rw [after.l]; omega)
    have leaves : last.editor.clear false = none := by simp [Editor.clear,wiped]
    have pressed : last.editor.press last.hidden (ctrl 0x55) = none := by
      have shown : last.hidden = false := visible
      rw [shown]
      exact congrArg (Option.map _) leaves
    rw [key_press (.inl rfl),pressed] at stays
    cases stays
  · intro fits
    obtain ⟨editor,echo,pressed,_⟩ := @key_edits access last _ (ctrl 0x55) visible after (.inl ⟨rfl,fun _ => fits⟩)
    rw [pressed]
    rfl

theorem clear_stays_iff_help :
    ∃ last sent, feed (guest [] [] []) (text "help") atPrompt = some (last,sent) ∧
      ((last.input (guest [] [] []) (ctrl 0x55)).isSome ↔ 3 * (meantAll .empty (text "help")).text.length ≤ maxLineLength) :=
  clear_stays_iff _ atPrompt rfl .empty .fresh _ _ (by decide) (by decide)

private theorem prompt_shown {s : Session} {line : EditLine UInt8} (shows : Shows s.editor line) :
    ∃ prompt, s.prompt = some prompt := by
  have room := shows.room
  have held : s.editor.cmd.fetch 0 s.editor.l = some line.text := by
    have fetched := shows.cmd.fetch_rest 0 (by simp only [maxLineLength] at room ⊢; omega) (Nat.zero_le _)
    rw [shows.l]
    simpa using fetched
  unfold Session.prompt Session.line
  rw [held]
  split
  all_goals exact ⟨_,rfl⟩

/-- A `?` behind the line is put into `cmd`, and the cursor stays before it. -/
theorem insert_question {e : Editor} {typed : Bytes} (shows : Shows e ⟨typed,[]⟩) :
    ∃ cmd, e.insert false 0x3F = some ({e with cmd := cmd,l := e.l + 1},lineEnd,.entered true) ∧
      Holds cmd (typed ++ [0x3F]) ∧ e.l = typed.length ∧ e.cursor = typed.length := by
  obtain ⟨stored,longer,done⟩ := insert_last_stores false 0x3F shows
  obtain ⟨_,l,cursor,_,_⟩ := shows
  simp only [EditLine.text,List.append_nil] at l cursor
  have last : e.cursor = e.l := by omega
  refine ⟨stored,?_,longer,l,cursor⟩
  rw [done]
  simp [Editor.typed,last]

theorem run_editor (access : Access) (s : Session) (e : Editor) (line : Bytes) :
    ({s with editor := e} : Session).run access line =
      ((s.run access line).1.map fun next => {next with editor := e},(s.run access line).2) := by
  have same : ({s with editor := e} : Session).find access line = s.find access line := rfl
  unfold Session.run
  rw [same]
  split
  next => rfl
  next left builtin _ _ _ =>
    cases builtin with
    | exit =>
      simp only [Session.builtin]
      split
      next => rfl
      next => split <;> rfl
    | enable =>
      simp only [Session.builtin]
      split <;> rfl
    | help => rfl
    | history => rfl
    | quit => rfl
    | disable => rfl
    | configureTerminal => rfl
  next => rfl

private theorem again_kept {s : Session} {typed : Bytes} (holds : Holds s.editor.cmd (typed ++ [0x3F]))
    (cursor : s.editor.cursor = typed.length) (glyphs : ∀ c ∈ typed, Glyph c) (room : typed.length ≤ maxLineLength - 2)
    (sent : Bytes) (call : Option Call) :
    ∃ editor prompt, s.again true sent call = some ⟨some {s with editor := editor},sent,call,prompt⟩ ∧
      Shows editor ⟨typed,[]⟩ := by
  obtain ⟨stored,write_done,shorter⟩ := holds.store typed.length [0] (by simp)
    (by simp only [List.length_singleton,maxLineLength] at room ⊢; omega)
  have front : Holds stored typed := by
    apply shorter.zeros_behind 1
    simp
  have shows : Shows ⟨stored,s.editor.cursor,s.editor.cursor,0,0⟩ ⟨typed,[]⟩ :=
    ⟨by simpa [EditLine.text] using front,by simpa [EditLine.text] using cursor,cursor,by simpa [EditLine.text] using glyphs,
      by simpa [EditLine.text] using room⟩
  let next : Session := {s with editor := ⟨stored,s.editor.cursor,s.editor.cursor,0,0⟩}
  obtain ⟨prompt,shown⟩ := @prompt_shown next ⟨typed,[]⟩ shows
  refine ⟨_,prompt,?_,shows⟩
  have kept : s.editor.again true = some ⟨stored,s.editor.cursor,s.editor.cursor,0,0⟩ := by
    rw [Editor.again,if_pos rfl,cursor,write_done]
    rfl
  rw [Session.again,kept]
  change next.prompt.map _ = _
  rw [shown]
  rfl

/-- A `?` typed at the end of a line runs the line with the `?` as its last character, without
an Enter, and leaves the line without it for the next one. -/
theorem question_runs (access : Access) (s : Session) (ready : s.state = .normal ∨ s.state = .enable)
    (rest : s.decoder = .rest) (typed : Bytes) (shows : Shows s.editor ⟨typed,[]⟩) :
    ∃ turn, s.input access 0x3F = some turn ∧ turn.call = (s.run access (typed ++ [0x3F])).2 ∧
      ∀ next, turn.session = some next → ∃ before, (s.run access (typed ++ [0x3F])).1 = some before ∧
        next.cli = before.cli ∧ next.state = before.state ∧ Shows next.editor ⟨typed,[]⟩ := by
  obtain ⟨cmd,inserted,holds,l,cursor⟩ := insert_question shows
  have room := shows.room
  have glyphs := shows.glyphs
  simp only [EditLine.text,List.append_nil,maxLineLength] at room glyphs
  let middle : Session := {s with editor := {s.editor with cmd := cmd,l := s.editor.l + 1}}
  have entered : s.input access 0x3F = middle.command access true lineEnd := by
    have decoded : s.input access 0x3F = s.key access 0x3F := by
      unfold Session.input
      rw [rest]
      change ({s with decoder := .rest} : Session).key access 0x3F = s.key access 0x3F
      rw [← rest]
    have pressed : s.editor.press false 0x3F = s.editor.insert false 0x3F := rfl
    have middle_ready : middle.state = .normal ∨ middle.state = .enable := ready
    rw [decoded,key_press (.inr (by decide)),ready_visible ready,pressed,inserted]
    exact ready_enter middle_ready true lineEnd
  have held : middle.editor.cmd.string 0 = some (typed ++ [0x3F]) := by
    have clean : 0 ∉ typed ++ [0x3F] := by
      intro zero
      obtain inside | last := List.mem_append.mp zero
      · exact (glyphs 0 inside).ne.1 rfl
      · cases List.mem_singleton.mp last
    have short : (typed ++ [0x3F]).length < maxLineLength := by
      simp only [List.length_append,List.length_singleton,maxLineLength]
      omega
    exact holds.string 0 (Nat.zero_le _) short clean
  have last : middle.editor.cmd.fetch (middle.editor.l - 1) 1 = some [0x3F] := by
    have index : middle.editor.l - 1 = typed.length := l
    rw [index]
    have fetched := holds.fetch typed.length 1 (by simp only [maxLineLength]; omega)
    rw [List.drop_left] at fetched
    exact fetched
  have some_text : ¬middle.editor.l = 0 := Nat.succ_ne_zero _
  have ran : middle.run access (typed ++ [0x3F]) =
      ((s.run access (typed ++ [0x3F])).1.map fun next => {next with editor := middle.editor},
        (s.run access (typed ++ [0x3F])).2) := run_editor access s middle.editor _
  have history : (if ([0x3F] : Bytes) ≠ [0x3F] ∧ ¬sameText (typed ++ [0x3F]) (text "history") then
      addHistory middle.history (typed ++ [0x3F]) else middle.history) = middle.history := by simp
  rw [entered,command_eq true lineEnd some_text held last history]
  rw [ran]
  cases after : (s.run access (typed ++ [0x3F])).1 with
  | none => exact ⟨_,rfl,rfl,fun next goes => by cases goes⟩
  | some before =>
    let kept : Session := {before with editor := middle.editor}
    obtain ⟨editor,prompt,again,shown⟩ := @again_kept kept typed holds cursor glyphs room lineEnd (s.run access (typed ++ [0x3F])).2
    refine ⟨_,again,rfl,?_⟩
    intro next goes
    cases goes
    exact ⟨before,rfl,rfl,rfl,shown⟩

theorem question_runs_empty :
    ∃ turn, atPrompt.input (guest [] [] []) 0x3F = some turn ∧
      turn.call = (atPrompt.run (guest [] [] []) ([] ++ [0x3F])).2 ∧
      ∀ next, turn.session = some next → ∃ before, (atPrompt.run (guest [] [] []) ([] ++ [0x3F])).1 = some before ∧
        next.cli = before.cli ∧ next.state = before.state ∧ Shows next.editor ⟨[],[]⟩ :=
  question_runs _ atPrompt (.inl rfl) rfl [] .fresh

end LEDMessageBoard.TypedLines
