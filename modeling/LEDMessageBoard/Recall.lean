import LEDMessageBoard.TypedLines
import Mathlib.Data.Bool.AllAny

/-! The lines before, which a client brings back with the arrows up and down, `CTRL('P')` and
`CTRL('N')`: a ring that each of them turns by one line. -/
namespace LEDMessageBoard.Recall
open General General.Transducer General.Blocks Config Cli LibCli Telnet Semantics LineEditor Completion Filters CliLoop Typing
  KeyRuns TypedLines

/-- `cli->history` with lines that the editor has room for. -/
structure Recallable (history : List Bytes) : Prop where
  count : history.length ≤ maxHistory
  glyphs : ∀ entry ∈ history, ∀ c ∈ entry, Glyph c
  room : ∀ entry ∈ history, entry.length ≤ maxLineLength - 2

def Turns (c : UInt8) : Prop := c = ctrl 0x50 ∨ c = ctrl 0x4E

instance (c : UInt8) : Decidable (Turns c) := inferInstanceAs (Decidable (c = ctrl 0x50 ∨ c = ctrl 0x4E))

def turn (c : UInt8) : Int := if c = ctrl 0x50 then -1 else 1

/-- A line, and `in_history`. -/
structure Place where
  line : EditLine UInt8
  position : Int

/-- The line at the next place of the ring. Without a line there the place is only counted. -/
def recalled (history : List Bytes) (c : UInt8) (place : Place) : Place :=
  let next := place.position + turn c
  match history[(next % history.length).toNat]? with
  | some entry => ⟨⟨entry,[]⟩,next % history.length⟩
  | none => ⟨place.line,max (-1) next⟩

/-- An arrow stays within `cmd` and `cli->history`, and within the `int` of `in_history`. -/
def Stays (history : List Bytes) (place : Place) (c : UInt8) : Prop :=
  if history = [] then if c = ctrl 0x50 then place.position ≤ maxHistory else place.position < Editor.intMax
  else 3 * place.line.text.length ≤ maxLineLength

instance (history : List Bytes) (place : Place) (c : UInt8) : Decidable (Stays history place c) :=
  inferInstanceAs (Decidable (if history = [] then
      if c = ctrl 0x50 then place.position ≤ maxHistory else place.position < Editor.intMax
    else 3 * place.line.text.length ≤ maxLineLength))

def means (history : List Bytes) (place : Place) (c : UInt8) : Place :=
  if Turns c then recalled history c place else ⟨meant c place.line,place.position⟩

def meansAll (history : List Bytes) (place : Place) (keys : Bytes) : Place := keys.foldl (means history) place

def Allows (history : List Bytes) (place : Place) (c : UInt8) : Prop :=
  if Turns c then Stays history place c else Admits place.line c

instance (history : List Bytes) (place : Place) (c : UInt8) : Decidable (Allows history place c) :=
  inferInstanceAs (Decidable (if Turns c then Stays history place c else Admits place.line c))

def Allowed (history : List Bytes) (place : Place) : Bytes → Prop
  | [] => True
  | c :: rest => Allows history place c ∧ Allowed history (means history place c) rest

def Allowed.decide (history : List Bytes) : (place : Place) → (keys : Bytes) → Decidable (Allowed history place keys)
  | _, [] => isTrue trivial
  | place, c :: rest =>
    have : Decidable (Allowed history (means history place c) rest) := Allowed.decide history (means history place c) rest
    inferInstanceAs (Decidable (Allows history place c ∧ Allowed history (means history place c) rest))

instance (history : List Bytes) (place : Place) (keys : Bytes) : Decidable (Allowed history place keys) :=
  Allowed.decide history place keys

/-- Where `in_history` can be. -/
structure InRing (history : List Bytes) (position : Int) : Prop where
  low : -1 ≤ position
  inside : history ≠ [] → 0 ≤ position ∧ position < history.length

theorem InRing.start (history : List Bytes) : InRing history 0 := by
  refine ⟨by omega,?_⟩
  intro some_line
  have positive := List.length_pos_iff.mpr some_line
  exact ⟨Int.le_refl 0,by omega⟩

theorem ready_known {s : Session} (ready : s.state = .normal ∨ s.state = .enable) : s.state ≠ .login := by
  obtain normal | enable := ready
  · rw [normal]
    decide
  · rw [enable]
    decide

theorem remembered_recallable {history : List Bytes} (recallable : Recallable history) {line : Bytes}
    (glyphs : ∀ c ∈ line, Glyph c) (room : line.length ≤ maxLineLength - 2) : Recallable (remembered history line) := by
  have kept (entry : Bytes) (member : entry ∈ remembered history line) : entry ∈ history ∨ entry = line := by
    unfold remembered addHistory at member
    split at member
    next =>
      split at member
      next =>
        split at member
        next => exact .inl member
        next => simpa using member
      next =>
        obtain older | last := List.mem_append.mp member
        · exact .inl (List.mem_of_mem_drop older)
        · exact .inr (List.mem_singleton.mp last)
    next => exact .inl member
  refine ⟨?_,?_,?_⟩
  · have count := recallable.count
    unfold remembered addHistory
    split
    next =>
      split
      next below =>
        split
        next => exact count
        next => rw [List.length_append,List.length_singleton]; exact below
      next =>
        simp only [List.length_append,List.length_drop,List.length_singleton,maxHistory] at count ⊢
        omega
    next => exact count
  · intro entry member
    obtain older | same := kept entry member
    · exact recallable.glyphs entry older
    · exact same ▸ glyphs
  · intro entry member
    obtain older | same := kept entry member
    · exact recallable.room entry older
    · exact same ▸ room

section Turning

variable {history : List Bytes} {e : Editor}

/-- An arrow up takes the line before, and the last one at the first place. -/
theorem older_finds (some_line : history ≠ []) (count : history.length ≤ maxHistory) (ring : InRing history e.inHistory) :
    e.older history = some ((e.inHistory + -1) % history.length,
      history[((e.inHistory + -1) % (history.length : Int)).toNat]?) := by
  obtain ⟨low,high⟩ := ring.inside some_line
  unfold Editor.older
  dsimp only
  split
  next first =>
    have last : (e.inHistory + -1) % (history.length : Int) = history.length - 1 := by
      rw [← Int.add_emod_right]
      have around : e.inHistory + -1 + (history.length : Int) = history.length - 1 := by omega
      rw [around]
      exact Int.emod_eq_of_lt (by omega) (by omega)
    have index : ((history.length : Int) - 1).toNat = history.length - 1 := by omega
    rw [last,index,List.getLast?_eq_getElem?]
  next before =>
    have same : (e.inHistory + -1) % (history.length : Int) = e.inHistory - 1 := Int.emod_eq_of_lt (by omega) (by omega)
    have inside : (e.inHistory - 1).toNat < maxHistory := by omega
    rw [same,Editor.entry,if_pos inside]
    rfl

/-- An arrow down takes the line behind, and the first one at the last place. -/
theorem newer_finds (some_line : history ≠ []) (count : history.length ≤ maxHistory) (ring : InRing history e.inHistory) :
    e.newer history = some ((e.inHistory + 1) % history.length,
      history[((e.inHistory + 1) % (history.length : Int)).toNat]?) := by
  obtain ⟨low,high⟩ := ring.inside some_line
  have size : maxHistory = 256 := rfl
  have room : ¬Editor.intMax < e.inHistory + 1 := by
    unfold Editor.intMax
    omega
  unfold Editor.newer
  dsimp only
  rw [if_neg room]
  split
  next last =>
    have whole : e.inHistory + 1 = history.length := by
      obtain full | gone := last
      · omega
      · have behind := List.getElem?_eq_none_iff.mp gone
        omega
    rw [whole,Int.emod_self]
    cases history with
    | nil => exact absurd rfl some_line
    | cons first rest => rfl
  next inner =>
    have there : (e.inHistory + 1).toNat < history.length := by
      by_contra behind
      exact inner (.inr (List.getElem?_eq_none (Nat.le_of_not_lt behind)))
    have same : (e.inHistory + 1) % (history.length : Int) = e.inHistory + 1 := Int.emod_eq_of_lt (by omega) (by omega)
    rw [same]

/-- Without a line `in_history` is read at places that no one keeps within the array. -/
theorem older_empty (low : -1 ≤ e.inHistory) :
    e.older [] = if e.inHistory ≤ maxHistory then some (max (-1) (e.inHistory + -1),none) else none := by
  have size : maxHistory = 256 := rfl
  unfold Editor.older Editor.entry
  dsimp only
  by_cases first : e.inHistory - 1 < 0
  · rw [if_pos first,if_pos (by omega),Int.max_eq_left (by omega)]
    rfl
  · rw [if_neg first,Int.max_eq_right (by omega)]
    by_cases inside : e.inHistory ≤ maxHistory
    · rw [if_pos inside,if_pos (by omega)]
      rfl
    · rw [if_neg inside,if_neg (by omega)]
      rfl

private theorem newer_empty (low : -1 ≤ e.inHistory) :
    e.newer [] = if e.inHistory < Editor.intMax then some (max (-1) (e.inHistory + 1),none) else none := by
  unfold Editor.newer
  dsimp only
  by_cases room : e.inHistory < Editor.intMax
  · rw [if_pos room,if_neg (by omega),if_pos (.inr rfl),Int.max_eq_right (by omega)]
    rfl
  · rw [if_neg room,if_pos (by omega)]

end Turning

private theorem fromHistory_shows {e : Editor} {line : EditLine UInt8} (shows : Shows e line)
    (fits : 3 * line.text.length ≤ maxLineLength) {entry : Bytes} (glyphs : ∀ c ∈ entry, Glyph c)
    (room : entry.length ≤ maxLineLength - 2) (position : Int) :
    ∃ editor echo, e.fromHistory (position,some entry) = some (editor,echo) ∧ Shows editor ⟨entry,[]⟩ ∧
      editor.inHistory = position ∧
      ∀ start row, Row.Reads 0x20 start row line → Row.Reads 0x20 start (write row echo) ⟨entry,[]⟩ := by
  obtain ⟨before,after⟩ := line
  obtain ⟨cmd,l,cursor,_,_⟩ := shows
  obtain ⟨wiped,wipe,_⟩ := clearLine_wipes cmd l (by omega)
  have whole : entry.take (maxLineLength - 1) = entry := List.take_of_length_le (by omega)
  refine ⟨_,_,by rw [Editor.fromHistory]; simp only [wipe,whole,Option.bind_eq_bind,Option.bind_some]; rfl,?_,rfl,?_⟩
  · refine ⟨?_,by simp [EditLine.text],rfl,by simpa [EditLine.text] using glyphs,by simpa [EditLine.text] using room⟩
    simp only [Holds,Buffer.ofText,whole,EditLine.text,List.append_nil]
  · intro start row reads
    have clear := reads_cleared reads (by simpa [EditLine.text] using l) cursor
    rw [write_append]
    have written := reads_run clear entry glyphs
    simpa using written

section Keys

variable {hidden : Bool} {e next : Editor} {echo : Bytes}

private theorem eraseOnce_position (done : e.eraseOnce hidden = some (next,echo)) : next.inHistory = e.inHistory := by
  unfold Editor.eraseOnce at done
  dsimp only at done
  split at done
  next =>
    obtain ⟨cmd,_,same⟩ := Option.bind_eq_some_iff.mp done
    cases same
    rfl
  next =>
    split at done
    next =>
      cases done
      rfl
    next =>
      obtain ⟨moved,_,stored⟩ := Option.bind_eq_some_iff.mp done
      obtain ⟨cmd,_,shown⟩ := Option.bind_eq_some_iff.mp stored
      obtain ⟨rest,_,same⟩ := Option.bind_eq_some_iff.mp shown
      cases same
      rfl

private theorem eraseBack_position (count : Nat) (done : e.eraseBack hidden count = some (next,echo)) :
    next.inHistory = e.inHistory := by
  induction count generalizing e echo with
  | zero =>
    cases done
    rfl
  | succ count ih =>
    obtain ⟨⟨middle,first⟩,once,others⟩ := Option.bind_eq_some_iff.mp done
    obtain ⟨⟨last,rest⟩,back,same⟩ := Option.bind_eq_some_iff.mp others
    cases same
    exact (ih back).trans (eraseOnce_position once)

private theorem eraseWord_position (done : e.eraseWord hidden = some (next,echo)) : next.inHistory = e.inHistory := by
  unfold Editor.eraseWord at done
  split at done
  next =>
    cases done
    rfl
  next =>
    obtain ⟨before,_,back⟩ := Option.bind_eq_some_iff.mp done
    exact eraseBack_position _ back

private theorem eraseChar_position (done : e.eraseChar hidden = some (next,echo)) : next.inHistory = e.inHistory := by
  unfold Editor.eraseChar at done
  split at done
  next =>
    cases done
    rfl
  next => exact eraseBack_position _ done

private theorem clear_position (done : e.clear hidden = some (next,echo)) : next.inHistory = e.inHistory := by
  unfold Editor.clear at done
  split at done
  all_goals
    obtain ⟨_,_,same⟩ := Option.bind_eq_some_iff.mp done
    cases same
    rfl

private theorem kill_position (done : e.kill hidden = some (next,echo)) : next.inHistory = e.inHistory := by
  unfold Editor.kill at done
  split at done
  next =>
    cases done
    rfl
  next =>
    obtain ⟨_,_,same⟩ := Option.bind_eq_some_iff.mp done
    cases same
    rfl

private theorem moveLeft_position (done : e.moveLeft hidden = some (next,echo)) : next.inHistory = e.inHistory := by
  unfold Editor.moveLeft at done
  split at done
  all_goals
    cases done
    rfl

private theorem moveRight_position (done : e.moveRight hidden = some (next,echo)) : next.inHistory = e.inHistory := by
  unfold Editor.moveRight at done
  split at done
  next =>
    dsimp only at done
    split at done
    next =>
      cases done
      rfl
    next =>
      obtain ⟨_,_,same⟩ := Option.bind_eq_some_iff.mp done
      cases same
      rfl
  next =>
    cases done
    rfl

private theorem moveEnd_position (done : e.moveEnd hidden = some (next,echo)) : next.inHistory = e.inHistory := by
  unfold Editor.moveEnd at done
  split at done
  next =>
    dsimp only at done
    split at done
    next =>
      cases done
      rfl
    next =>
      obtain ⟨_,_,same⟩ := Option.bind_eq_some_iff.mp done
      cases same
      rfl
  next =>
    cases done
    rfl

private theorem insert_position {c : UInt8} {goes : Next} (done : e.insert hidden c = some (next,echo,goes)) :
    next.inHistory = e.inHistory := by
  have typed (after : Editor) (shown : Bytes) (same : Editor.typed hidden c after shown = (next,echo,goes))
      (kept : after.inHistory = e.inHistory) : next.inHistory = e.inHistory := by
    unfold Editor.typed at same
    split at same
    next =>
      cases same
      exact kept
    next => split at same <;> cases same <;> exact kept
  unfold Editor.insert at done
  split at done
  next =>
    obtain ⟨cmd,_,rest⟩ := Option.bind_eq_some_iff.mp done
    split at rest
    next =>
      rw [Option.pure_def] at rest
      exact typed _ _ (Option.some.inj rest) rfl
    next =>
      cases rest
      rfl
  next =>
    obtain ⟨moved,_,stored⟩ := Option.bind_eq_some_iff.mp done
    obtain ⟨cmd,_,fetched⟩ := Option.bind_eq_some_iff.mp stored
    obtain ⟨shown,_,rest⟩ := Option.bind_eq_some_iff.mp fetched
    rw [Option.pure_def] at rest
    exact typed _ _ (Option.some.inj rest) rfl

/-- The keys that edit the line do not touch `in_history`. -/
theorem press_position {c : UInt8} {goes : Next} (done : e.press hidden c = some (next,echo,goes)) :
    next.inHistory = e.inHistory := by
  have edited {out : Option (Editor × Bytes)} (same : (out.map fun both => (both.1,both.2,Next.more)) = some (next,echo,goes)) :
      out = some (next,echo) := by
    obtain ⟨⟨editor,shown⟩,found,equal⟩ := Option.map_eq_some_iff.mp same
    cases equal
    exact found
  unfold Editor.press at done
  dsimp only at done
  split at done
  next => exact eraseWord_position (edited done)
  split at done
  next => exact eraseChar_position (edited done)
  split at done
  next => exact clear_position (edited done)
  split at done
  next => exact kill_position (edited done)
  split at done
  next => exact moveLeft_position (edited done)
  split at done
  next => exact moveRight_position (edited done)
  split at done
  next =>
    cases edited done
    rfl
  split at done
  next => exact moveEnd_position (edited done)
  next => exact insert_position done

end Keys

private theorem key_turns {access : Access} {s : Session} {c : UInt8} (turns : Turns c) (visible : s.hidden = false)
    (state : s.state ≠ .login) : s.key access c =
      (if c = ctrl 0x50 then s.editor.older s.history else s.editor.newer s.history).bind fun found =>
        s.edit (s.editor.fromHistory found) := by
  have quiet : ¬(s.state = .login ∨ s.hidden = true) := by
    rw [visible]
    exact not_or.mpr ⟨state,Bool.false_ne_true⟩
  unfold Session.key
  obtain same | same := turns
  all_goals
    subst same
    rw [if_neg (by decide),if_neg (by decide),if_neg (by decide),if_neg (by decide),if_neg (by decide),if_neg (by decide),
      if_pos (by decide),if_neg quiet]

section Arrows

variable {access : Access} {s : Session} {line : EditLine UInt8} {position : Int} {c : UInt8}

private theorem finds_line {history : List Bytes} {e : Editor} (turns : Turns c) (some_line : history ≠ [])
    (count : history.length ≤ maxHistory) (ring : InRing history e.inHistory) :
    (if c = ctrl 0x50 then e.older history else e.newer history) = some ((e.inHistory + turn c) % history.length,
      history[((e.inHistory + turn c) % (history.length : Int)).toNat]?) := by
  obtain up | down := turns
  · rw [if_pos up,turn,if_pos up]
    exact older_finds some_line count ring
  · have other : c ≠ ctrl 0x50 := by
      rw [down]
      decide
    rw [if_neg other,turn,if_neg other]
    exact newer_finds some_line count ring

private theorem finds_nothing {history : List Bytes} {e : Editor} (turns : Turns c) (empty : history = [])
    (low : -1 ≤ e.inHistory) :
    (if c = ctrl 0x50 then e.older history else e.newer history) =
      if Stays history ⟨line,e.inHistory⟩ c then some (max (-1) (e.inHistory + turn c),none) else none := by
  subst empty
  have stays : Stays [] ⟨line,e.inHistory⟩ c ↔
      if c = ctrl 0x50 then e.inHistory ≤ maxHistory else e.inHistory < Editor.intMax := Iff.rfl
  obtain up | down := turns
  · rw [if_pos up,turn,if_pos up,older_empty low]
    congr 1
    rw [stays,if_pos up]
  · have other : c ≠ ctrl 0x50 := by
      rw [down]
      decide
    rw [if_neg other,turn,if_neg other,newer_empty low]
    congr 1
    rw [stays,if_neg other]

private theorem recalled_nothing {history : List Bytes} (empty : history = []) :
    recalled history c ⟨line,position⟩ = ⟨line,max (-1) (position + turn c)⟩ := by
  subst empty
  rfl

/-- An arrow that stays within the arrays turns the ring, in the loop and on the terminal. -/
theorem key_recalls (turns : Turns c) (visible : s.hidden = false) (state : s.state ≠ .login)
    (recallable : Recallable s.history) (shows : Shows s.editor line) (ring : InRing s.history s.editor.inHistory)
    (stays : Stays s.history ⟨line,s.editor.inHistory⟩ c) :
    ∃ editor echo, s.key access c = some ⟨some {s with editor := editor},echo,none,[]⟩ ∧
      Shows editor (recalled s.history c ⟨line,s.editor.inHistory⟩).line ∧
      editor.inHistory = (recalled s.history c ⟨line,s.editor.inHistory⟩).position ∧ InRing s.history editor.inHistory ∧
      ∀ start row, Row.Reads 0x20 start row line →
        Row.Reads 0x20 start (write row echo) (recalled s.history c ⟨line,s.editor.inHistory⟩).line := by
  rw [key_turns turns visible state]
  by_cases empty : s.history = []
  · rw [finds_nothing turns empty ring.low,if_pos stays,recalled_nothing empty]
    refine ⟨{s.editor with inHistory := max (-1) (s.editor.inHistory + turn c)},[],rfl,?_,rfl,?_,fun _ _ reads => reads⟩
    · exact ⟨shows.cmd,shows.l,shows.cursor,shows.glyphs,shows.room⟩
    · exact ⟨Int.le_max_left _ _,fun some_line => absurd empty some_line⟩
  · rw [finds_line turns empty recallable.count ring]
    have positive := List.length_pos_iff.mpr empty
    have low := Int.emod_nonneg (s.editor.inHistory + turn c) (by omega : (s.history.length : Int) ≠ 0)
    have high := Int.emod_lt_of_pos (s.editor.inHistory + turn c) (by omega : 0 < (s.history.length : Int))
    have there : ((s.editor.inHistory + turn c) % (s.history.length : Int)).toNat < s.history.length := by omega
    have found := List.getElem?_eq_getElem there
    have member := List.getElem_mem there
    have fits : 3 * line.text.length ≤ maxLineLength := by
      rw [Stays,if_neg empty] at stays
      exact stays
    obtain ⟨editor,echo,taken,shown,place,reads⟩ := fromHistory_shows shows fits (recallable.glyphs _ member)
      (recallable.room _ member) ((s.editor.inHistory + turn c) % (s.history.length : Int))
    unfold recalled
    dsimp only
    rw [found]
    refine ⟨editor,echo,?_,shown,place,?_,reads⟩
    · rw [Option.bind_some,taken]
      rfl
    · rw [place]
      exact ⟨by omega,fun _ => ⟨low,high⟩⟩

private theorem key_leaves (turns : Turns c) (visible : s.hidden = false) (state : s.state ≠ .login)
    (recallable : Recallable s.history) (shows : Shows s.editor line) (ring : InRing s.history s.editor.inHistory)
    (leaves : ¬Stays s.history ⟨line,s.editor.inHistory⟩ c) : s.key access c = none := by
  rw [key_turns turns visible state]
  by_cases empty : s.history = []
  · rw [finds_nothing turns empty ring.low,if_neg leaves]
    rfl
  · rw [Stays,if_neg empty] at leaves
    have long : maxLineLength < 3 * s.editor.l := by
      rw [shows.l]
      exact Nat.lt_of_not_le leaves
    have positive := List.length_pos_iff.mpr empty
    have low := Int.emod_nonneg (s.editor.inHistory + turn c) (by omega : (s.history.length : Int) ≠ 0)
    have high := Int.emod_lt_of_pos (s.editor.inHistory + turn c) (by omega : 0 < (s.history.length : Int))
    have there : ((s.editor.inHistory + turn c) % (s.history.length : Int)).toNat < s.history.length := by omega
    have fails (found : Int) (entry : Bytes) : s.editor.fromHistory (found,some entry) = none := by
      simp [Editor.fromHistory,clearLine_leaves s.editor long]
    rw [finds_line turns empty recallable.count ring,List.getElem?_eq_getElem there,Option.bind_some,fails]
    rfl

end Arrows

/-- A line that is typed, with the place in the ring and the terminal that shows it. -/
def recallLine (access : Access) (history : List Bytes) (recallable : Recallable history) : Interaction access Place where
  still s := s.hidden = false ∧ s.state ≠ .login ∧ s.history = history
  kept _ _ _ still := still
  shows e place := Shows e place.line ∧ e.inHistory = place.position ∧ InRing history e.inHistory
  next c place := means history place c
  admits := Allows history
  answers place c echo :=
    ∀ start row, Row.Reads 0x20 start row place.line → Row.Reads 0x20 start (write row echo) (means history place c).line
  key s place c still shows allows := by
    obtain ⟨visible,state,same⟩ := still
    obtain ⟨line,position⟩ := place
    obtain ⟨shows,there,ring⟩ := shows
    subst same there
    unfold means
    rw [Allows] at allows
    split at allows
    next turns =>
      obtain ⟨editor,echo,pressed,after,place,inside,reads⟩ := key_recalls turns visible state recallable shows ring allows
      rw [if_pos turns]
      exact ⟨editor,echo,pressed,⟨after,place,inside⟩,reads⟩
    next edits =>
      obtain ⟨editor,echo,pressed,after,reads⟩ := press_presses shows allows
      have place := press_position pressed
      rw [if_neg edits]
      refine ⟨editor,echo,?_,⟨after,place,by rw [place]; exact ring⟩,reads⟩
      rw [key_press (allows.imp And.left And.left),visible,pressed]
      rfl

section Runs

variable {access : Access} {history : List Bytes} {recallable : Recallable history}

private theorem answered_shows {place : Place} {keys sent : Bytes}
    (answered : (recallLine access history recallable).Answered place keys sent) :
    ∀ start row, Row.Reads 0x20 start row place.line →
      Row.Reads 0x20 start (write row sent) (meansAll history place keys).line := by
  induction answered with
  | nothing => exact fun _ _ reads => reads
  | key first others ih =>
    intro start row reads
    rw [write_append]
    exact ih start _ (first start row reads)

private theorem allowed_admitted {place : Place} {keys : Bytes} (allowed : Allowed history place keys) :
    (recallLine access history recallable).Admitted place keys := by
  induction keys generalizing place with
  | nil => trivial
  | cons c rest ih => exact ⟨allowed.1,ih allowed.2⟩

end Runs

/-- Keys that stay within the arrays, the arrows among them: the session goes on with the line
and the place that they mean, and the terminal shows the line. -/
theorem feed_recalls (access : Access) (bytes : Bytes) (s : Session) (place : Place) (visible : s.hidden = false)
    (state : s.state ≠ .login) (recallable : Recallable s.history) (shows : Shows s.editor place.line)
    (there : s.editor.inHistory = place.position) (ring : InRing s.history place.position)
    (allowed : Allowed s.history place (emit decode s.decoder bytes).2) :
    ∃ editor sent, feed access bytes s = some ({s with editor := editor,decoder := (emit decode s.decoder bytes).1},sent) ∧
      Shows editor (meansAll s.history place (emit decode s.decoder bytes).2).line ∧
      editor.inHistory = (meansAll s.history place (emit decode s.decoder bytes).2).position ∧
      InRing s.history editor.inHistory ∧
      ∀ start row, Row.Reads 0x20 start row place.line →
        Row.Reads 0x20 start (write row sent) (meansAll s.history place (emit decode s.decoder bytes).2).line := by
  obtain ⟨editor,sent,fed,⟨after,position,inside⟩,answered⟩ :=
    (recallLine access s.history recallable).feed_runs bytes s place ⟨visible,state,rfl⟩
      ⟨shows,there,by rw [there]; exact ring⟩ (allowed_admitted allowed)
  exact ⟨editor,sent,fed,after,position,inside,answered_shows answered⟩

theorem run_kept (access : Access) {s next : Session} {line : Bytes} (ran : (s.run access line).1 = some next) :
    next.history = s.history ∧ next.editor = s.editor ∧ next.decoder = s.decoder := by
  unfold Session.run at ran
  split at ran
  next =>
    cases ran
    exact ⟨rfl,rfl,rfl⟩
  next left builtin _ _ _ =>
    cases builtin with
    | quit => cases ran
    | exit =>
      simp only [Session.builtin] at ran
      split at ran
      next => cases ran
      next =>
        split at ran
        all_goals
          cases ran
          exact ⟨rfl,rfl,rfl⟩
    | enable =>
      simp only [Session.builtin] at ran
      split at ran
      all_goals
        cases ran
        exact ⟨rfl,rfl,rfl⟩
    | _ =>
      cases ran
      exact ⟨rfl,rfl,rfl⟩
  next =>
    cases ran
    exact ⟨rfl,rfl,rfl⟩

/-- A line as a client types it, with the lines before brought back in between and changed: the
terminal shows the line, and the line is what the session runs. The lines that the client can
bring back afterwards are again lines that the editor has room for. -/
theorem recalled_line_runs (access : Access) (s : Session) (ready : s.state = .normal ∨ s.state = .enable)
    (recallable : Recallable s.history) (line : EditLine UInt8) (shows : Shows s.editor line) (first : s.editor.inHistory = 0)
    (bytes keys : Bytes) (decoded : emit decode s.decoder bytes = (.rest,keys)) (allowed : Allowed s.history ⟨line,0⟩ keys) :
    ∃ last sent, feed access bytes s = some (last,sent) ∧ last.cli = s.cli ∧ last.state = s.state ∧
      last.history = s.history ∧
      (∀ start row, Row.Reads 0x20 start row line →
        Row.Reads 0x20 start (write row sent) (meansAll s.history ⟨line,0⟩ keys).line) ∧
      ((meansAll s.history ⟨line,0⟩ keys).line.text ≠ [] → ∃ turn, last.input access 0x0D = some turn ∧
        turn.call = (({last with history := remembered s.history (meansAll s.history ⟨line,0⟩ keys).line.text} : Session).run
          access (meansAll s.history ⟨line,0⟩ keys).line.text).2 ∧
        turn.session =
          (({last with history := remembered s.history (meansAll s.history ⟨line,0⟩ keys).line.text} : Session).run
            access (meansAll s.history ⟨line,0⟩ keys).line.text).1.map (fun s => {s with editor := .fresh}) ∧
        ∀ next, turn.session = some next → Recallable next.history) := by
  have keyed : (emit decode s.decoder bytes).2 = keys := by rw [decoded]
  obtain ⟨editor,sent,fed,after,_,_,reads⟩ := feed_recalls access bytes s ⟨line,0⟩ (ready_visible ready) (ready_known ready)
    recallable shows first (.start s.history) (by rw [keyed]; exact allowed)
  rw [keyed] at after reads
  refine ⟨_,sent,fed,rfl,rfl,rfl,reads,?_⟩
  intro some_text
  rw [decoded]
  obtain ⟨turn,entered,call,session⟩ :=
    enter_runs access (s := {s with editor := editor,decoder := .rest}) ready rfl after some_text
  refine ⟨turn,entered,call,session,?_⟩
  intro next goes
  rw [session] at goes
  obtain ⟨before,ran,same⟩ := Option.map_eq_some_iff.mp goes
  cases same
  have kept := (run_kept access ran).1
  dsimp only at kept ⊢
  rw [kept]
  exact remembered_recallable recallable after.glyphs after.room

/-- After `help` and `show port`. -/
def twoLines : Session := {atPrompt with history := [text "help",text "show port"]}

private theorem twoLines_recallable : Recallable twoLines.history := by
  have entries (entry : Bytes) (member : entry ∈ twoLines.history) : entry = text "help" ∨ entry = text "show port" := by
    obtain same | behind := List.mem_cons.mp member
    · exact .inl same
    · exact .inr (List.mem_singleton.mp behind)
  refine ⟨by decide,?_,?_⟩
  · intro entry member
    obtain same | same := entries entry member
    all_goals
      rw [same]
      exact List.all_iff_forall_prop.mp (by decide)
  · intro entry member
    obtain same | same := entries entry member
    all_goals
      rw [same]
      decide

/-- An arrow up, and an `s` behind the line that it brings back. -/
theorem recalled_line_runs_ports :
    ∃ last sent, feed (guest [] [] []) (text "\x1b[As") twoLines = some (last,sent) ∧ last.cli = twoLines.cli ∧
      last.state = twoLines.state ∧ last.history = twoLines.history ∧
      (∀ start row, Row.Reads 0x20 start row .empty →
        Row.Reads 0x20 start (write row sent) (meansAll twoLines.history ⟨.empty,0⟩ (text "\x10s")).line) ∧
      ((meansAll twoLines.history ⟨.empty,0⟩ (text "\x10s")).line.text ≠ [] → ∃ turn,
        last.input (guest [] [] []) 0x0D = some turn ∧
        turn.call = (({last with
            history := remembered twoLines.history (meansAll twoLines.history ⟨.empty,0⟩ (text "\x10s")).line.text} :
          Session).run (guest [] [] []) (meansAll twoLines.history ⟨.empty,0⟩ (text "\x10s")).line.text).2 ∧
        turn.session = (({last with
            history := remembered twoLines.history (meansAll twoLines.history ⟨.empty,0⟩ (text "\x10s")).line.text} :
          Session).run (guest [] [] []) (meansAll twoLines.history ⟨.empty,0⟩ (text "\x10s")).line.text).1.map
              (fun s => {s with editor := .fresh}) ∧
        ∀ next, turn.session = some next → Recallable next.history) :=
  recalled_line_runs _ twoLines (.inl rfl) twoLines_recallable .empty .fresh rfl _ _ (by decide) (by decide)

example : (meansAll twoLines.history ⟨.empty,0⟩ (text "\x10s")).line.text = text "show ports" := by decide

/-- An arrow leaves the arrays exactly where it takes away a line that is longer than a third of
`cmd`, or, as long as there is no line to bring back, where arrows down have counted `in_history`
to more than 256 and it points up, or have counted it to the last `int` and it points down. -/
theorem arrow_stays_iff (access : Access) (s : Session) (ready : s.state = .normal ∨ s.state = .enable)
    (recallable : Recallable s.history) (line : EditLine UInt8) (shows : Shows s.editor line) (first : s.editor.inHistory = 0)
    (bytes keys : Bytes) (decoded : emit decode s.decoder bytes = (.rest,keys)) (allowed : Allowed s.history ⟨line,0⟩ keys)
    (c : UInt8) (turns : Turns c) :
    ∃ last sent, feed access bytes s = some (last,sent) ∧
      ((last.input access c).isSome ↔ Stays s.history (meansAll s.history ⟨line,0⟩ keys) c) := by
  have keyed : (emit decode s.decoder bytes).2 = keys := by rw [decoded]
  obtain ⟨editor,sent,fed,after,place,ring,_⟩ := feed_recalls access bytes s ⟨line,0⟩ (ready_visible ready) (ready_known ready)
    recallable shows first (.start s.history) (by rw [keyed]; exact allowed)
  rw [keyed] at after place
  refine ⟨_,sent,fed,?_⟩
  rw [decoded]
  let last : Session := {s with editor := editor,decoder := .rest}
  have decoded_key : last.input access c = last.key access c := by
    obtain same | same := turns
    all_goals
      subst same
      rfl
  change (last.input access c).isSome = true ↔ _
  rw [decoded_key]
  have same : (⟨(meansAll s.history ⟨line,0⟩ keys).line,last.editor.inHistory⟩ : Place) =
      meansAll s.history ⟨line,0⟩ keys := by
    rw [place]
  constructor
  · intro stays
    by_contra leaves
    rw [← same] at leaves
    rw [@key_leaves access last _ c turns (ready_visible ready) (ready_known ready) recallable after ring leaves] at stays
    cases stays
  · intro stays
    rw [← same] at stays
    obtain ⟨_,_,pressed,_⟩ := @key_recalls access last _ c turns (ready_visible ready) (ready_known ready) recallable after ring
      stays
    rw [pressed]
    rfl

theorem arrow_stays_iff_ports :
    ∃ last sent, feed (guest [] [] []) (text "\x1b[As") twoLines = some (last,sent) ∧
      ((last.input (guest [] [] []) (ctrl 0x50)).isSome ↔
        Stays twoLines.history (meansAll twoLines.history ⟨.empty,0⟩ (text "\x10s")) (ctrl 0x50)) :=
  arrow_stays_iff _ twoLines (.inl rfl) twoLines_recallable .empty .fresh rfl _ _ (by decide) (by decide) _ (by decide)

section Cycle

variable {history : List Bytes}

private theorem means_entry (some_line : history ≠ []) (place : Place) {c : UInt8} (turns : Turns c) :
    ∃ entry ∈ history, history[((place.position + turn c) % (history.length : Int)).toNat]? = some entry ∧
      means history place c = ⟨⟨entry,[]⟩,(place.position + turn c) % history.length⟩ := by
  have positive := List.length_pos_iff.mpr some_line
  have low := Int.emod_nonneg (place.position + turn c) (by omega : (history.length : Int) ≠ 0)
  have high := Int.emod_lt_of_pos (place.position + turn c) (by omega : 0 < (history.length : Int))
  have there : ((place.position + turn c) % (history.length : Int)).toNat < history.length := by omega
  have found := List.getElem?_eq_getElem there
  refine ⟨_,List.getElem_mem there,found,?_⟩
  unfold means recalled
  dsimp only
  rw [if_pos turns,found]

/-- Arrows down count up, arrows up count down. -/
def turned (keys : Bytes) : Int := keys.foldl (fun position c => position + turn c) 0

private theorem turned_cons (c : UInt8) (rest : Bytes) : turned (c :: rest) = turn c + turned rest := by
  have shifts (from_here : Int) (keys : Bytes) :
      keys.foldl (fun position c => position + turn c) from_here = from_here + turned keys := by
    unfold turned
    induction keys generalizing from_here with
    | nil => simp
    | cons c rest ih =>
      rw [List.foldl_cons,List.foldl_cons,ih (from_here + turn c),ih (0 + turn c)]
      omega
  rw [turned,List.foldl_cons,shifts,Int.zero_add]

private theorem means_cycle (some_line : history ≠ []) (keys : Bytes) (some_key : keys ≠ []) (place : Place)
    (arrows : ∀ c ∈ keys, Turns c) :
    ∃ entry ∈ history, history[((place.position + turned keys) % (history.length : Int)).toNat]? = some entry ∧
      meansAll history place keys = ⟨⟨entry,[]⟩,(place.position + turned keys) % history.length⟩ := by
  induction keys generalizing place with
  | nil => exact absurd rfl some_key
  | cons c rest ih =>
    obtain ⟨entry,member,found,moved⟩ := means_entry some_line place (arrows c List.mem_cons_self)
    have onward : meansAll history place (c :: rest) = meansAll history (means history place c) rest := rfl
    rw [turned_cons,onward]
    cases rest with
    | nil =>
      have last : place.position + (turn c + turned []) = place.position + turn c := by
        rw [turned,List.foldl_nil,Int.add_zero]
      rw [last]
      exact ⟨entry,member,found,moved⟩
    | cons second others =>
      have later := ih (List.cons_ne_nil _ _) (means history place c) fun other inside =>
        arrows other (List.mem_cons_of_mem _ inside)
      rw [moved] at later ⊢
      dsimp only at later
      rw [Int.emod_add_emod,Int.add_assoc] at later
      exact later

private theorem arrows_allowed (some_line : history ≠ []) (short : ∀ entry ∈ history, 3 * entry.length ≤ maxLineLength)
    (keys : Bytes)
    (place : Place) (arrows : ∀ c ∈ keys, Turns c) (fits : 3 * place.line.text.length ≤ maxLineLength) :
    Allowed history place keys := by
  induction keys generalizing place with
  | nil => trivial
  | cons c rest ih =>
    obtain ⟨entry,member,_,moved⟩ := means_entry some_line place (arrows c List.mem_cons_self)
    refine ⟨?_,ih _ (fun other inside => arrows other (List.mem_cons_of_mem _ inside)) ?_⟩
    · rw [Allows,if_pos (arrows c List.mem_cons_self),Stays,if_neg some_line]
      exact fits
    · rw [moved]
      simpa [EditLine.text] using short entry member

/-- The arrows go round: as many as there are lines, or an arrow up and one down, lead back to
the same line, and the terminal shows the line of the last arrow, whatever was typed before. -/
theorem arrows_cycle (access : Access) (s : Session) (ready : s.state = .normal ∨ s.state = .enable)
    (recallable : Recallable s.history) (some_line : s.history ≠ [])
    (short : ∀ entry ∈ s.history, 3 * entry.length ≤ maxLineLength) (place : Place) (shows : Shows s.editor place.line)
    (there : s.editor.inHistory = place.position) (ring : InRing s.history place.position)
    (fits : 3 * place.line.text.length ≤ maxLineLength) (bytes keys : Bytes)
    (decoded : emit decode s.decoder bytes = (.rest,keys)) (some_key : keys ≠ []) (arrows : ∀ c ∈ keys, Turns c) :
    ∃ last sent entry, feed access bytes s = some (last,sent) ∧
      s.history[((place.position + turned keys) % (s.history.length : Int)).toNat]? = some entry ∧
      Shows last.editor ⟨entry,[]⟩ ∧ last.editor.inHistory = (place.position + turned keys) % s.history.length ∧
      ∀ start row, Row.Reads 0x20 start row place.line → Row.Reads 0x20 start (write row sent) ⟨entry,[]⟩ := by
  have keyed : (emit decode s.decoder bytes).2 = keys := by rw [decoded]
  have allowed := arrows_allowed some_line short keys place arrows fits
  obtain ⟨editor,sent,fed,after,position,_,reads⟩ := feed_recalls access bytes s place (ready_visible ready) (ready_known ready)
    recallable shows there ring (by rw [keyed]; exact allowed)
  obtain ⟨entry,_,found,whole⟩ := means_cycle some_line keys some_key place arrows
  rw [keyed,whole] at after position reads
  exact ⟨_,sent,entry,fed,found,after,position,reads⟩

theorem arrows_cycle_up :
    ∃ last sent entry, feed (guest [] [] []) (text "\x1b[A\x1b[A\x1b[A") twoLines = some (last,sent) ∧
      twoLines.history[((0 + turned (text "\x10\x10\x10")) % (twoLines.history.length : Int)).toNat]? = some entry ∧
      Shows last.editor ⟨entry,[]⟩ ∧
      last.editor.inHistory = (0 + turned (text "\x10\x10\x10")) % twoLines.history.length ∧
      ∀ start row, Row.Reads 0x20 start row .empty → Row.Reads 0x20 start (write row sent) ⟨entry,[]⟩ :=
  arrows_cycle _ twoLines (.inl rfl) twoLines_recallable (by decide) (by
    intro entry member
    obtain same | behind := List.mem_cons.mp member
    · subst same
      decide
    · rw [List.mem_singleton.mp behind]
      decide) ⟨.empty,0⟩ .fresh rfl (.start _) (by decide) _ _ (by decide) (by decide)
    (List.all_iff_forall_prop.mp (by decide))

end Cycle

end LEDMessageBoard.Recall
