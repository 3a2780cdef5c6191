import LEDMessageBoard.KeyRuns
import LEDMessageBoard.Rights
import Mathlib.Data.Bool.AllAny

/-! A password while it is typed: what the terminal gets to see of it. -/
namespace LEDMessageBoard.PasswordEntry
open General General.Transducer Config LibCli Telnet Semantics LineEditor CliLoop Typing KeyRuns Rights

/-- The cursor stands behind what has been typed. -/
structure Masked (e : Editor) : Prop where
  last : e.cursor = e.l
  room : e.l ≤ maxLineLength - 1

/-- Neither the end of the line nor a key that takes the cursor back. -/
def Forward (c : UInt8) : Prop := c ≠ 0x0D ∧ c ≠ ctrl 0x44 ∧ c ≠ ctrl 0x41 ∧ c ≠ ctrl 0x42

instance (c : UInt8) : Decidable (Forward c) := inferInstanceAs (Decidable (_ ∧ _))

def Bells (sent : Bytes) : Prop := ∀ c ∈ sent, c = 7

private theorem stores (b : Buffer) (start : Nat) (run : Bytes) (inside : start + run.length ≤ maxLineLength) :
    ∃ stored, b.store start run = some stored := ⟨_,dif_pos inside⟩

section Keys

variable {e : Editor}

/-- A key that only edits keeps the password masked, and is answered with a bell at most. -/
def Masks (out : Option (Editor × Bytes)) : Prop := ∃ after echo, out = some (after,echo) ∧ Masked after ∧ Bells echo

theorem Masks.stays (masked : Masked e) : Masks (some (e,[])) := ⟨e,[],rfl,masked,List.forall_mem_nil _⟩

theorem Masks.bell (masked : Masked e) : Masks (some (e,LineEditor.bell)) :=
  ⟨e,LineEditor.bell,rfl,masked,fun _ member => List.mem_singleton.mp member⟩

theorem Masks.back (masked : Masked e) (count : Nat) : Masks (e.eraseBack true count) := by
  induction count generalizing e with
  | zero => exact .stays masked
  | succ count ih =>
    obtain ⟨last,room⟩ := masked
    simp only [maxLineLength] at room
    obtain ⟨cmd,stored⟩ := stores e.cmd (e.cursor - 1) [0] (by simp only [List.length_singleton,maxLineLength]; omega)
    have once : e.eraseOnce true = some ({e with cmd := cmd,l := e.l - 1,cursor := e.cursor - 1},[]) := by
      simp [Editor.eraseOnce,last.symm,stored]
    have shorter : Masked {e with cmd := cmd,l := e.l - 1,cursor := e.cursor - 1} :=
      ⟨by simp only [last],by simp only [maxLineLength]; omega⟩
    obtain ⟨after,echo,done,masked_after,bells⟩ := ih shorter
    refine ⟨after,echo,?_,masked_after,bells⟩
    simp [Editor.eraseBack,once,done]

theorem Masks.eraseWord (masked : Masked e) : Masks (e.eraseWord true) := by
  have whole := masked
  obtain ⟨last,room⟩ := masked
  simp only [maxLineLength] at room
  unfold Editor.eraseWord
  split
  next => exact .stays whole
  next =>
    have front : e.cmd.fetch 0 e.cursor = some ((e.cmd.bytes.drop 0).take e.cursor) :=
      if_pos (by simp only [maxLineLength]; omega)
    rw [front]
    exact .back whole _

theorem Masks.eraseChar (masked : Masked e) : Masks (e.eraseChar true) := by
  unfold Editor.eraseChar
  split
  next => exact .bell masked
  next => exact .back masked 1

theorem Masks.clear (masked : Masked e) : Masks (e.clear true) := by
  have room := masked.room
  simp only [maxLineLength] at room
  obtain ⟨cmd,stored⟩ := stores e.cmd 0 (List.replicate e.l 0)
    (by simp only [List.length_replicate,maxLineLength]; omega)
  refine ⟨{e with cmd := cmd,l := 0,cursor := 0},[],?_,⟨rfl,Nat.zero_le _⟩,List.forall_mem_nil _⟩
  simp [Editor.clear,stored]

private theorem Masks.unmoved (masked : Masked e) :
    Masks (e.kill true) ∧ Masks (e.moveRight true) ∧ Masks (e.moveEnd true) := by
  have last := masked.last
  refine ⟨?_,?_,?_⟩
  · unfold Editor.kill
    rw [if_pos last]
    exact .stays masked
  · unfold Editor.moveRight
    rw [if_neg (by omega)]
    exact .stays masked
  · unfold Editor.moveEnd
    rw [if_neg (by omega)]
    exact .stays masked

private theorem press_masked (masked : Masked e) {c : UInt8} (forward : Forward c) :
    ∃ after echo, e.press true c = some (after,echo,.more) ∧ Masked after ∧ Bells echo := by
  have edits {out : Option (Editor × Bytes)} (masks : Masks out) :
      ∃ after echo, (out.map fun pair => (pair.1,pair.2,Next.more)) = some (after,echo,.more) ∧ Masked after ∧ Bells echo := by
    obtain ⟨after,echo,done,rest⟩ := masks
    refine ⟨after,echo,?_,rest⟩
    rw [done]
    rfl
  obtain ⟨kill,right,last⟩ := Masks.unmoved masked
  obtain ⟨_,_,home,left⟩ := forward
  unfold Editor.press
  dsimp only
  split
  next => exact edits (.eraseWord masked)
  split
  next => exact edits (.eraseChar masked)
  split
  next => exact edits (.clear masked)
  split
  next => exact edits kill
  split
  next => exact edits right
  split
  next => exact edits last
  next =>
    have behind := masked.last
    have room := masked.room
    simp only [maxLineLength] at room
    obtain ⟨cmd,stored⟩ := stores e.cmd e.cursor [c] (by simp only [List.length_singleton,maxLineLength]; omega)
    unfold Editor.insert
    rw [if_pos behind,stored]
    simp only [Option.bind_eq_bind,Option.bind_some,Option.pure_def]
    split
    next below =>
      refine ⟨_,[],rfl,⟨?_,?_⟩,List.forall_mem_nil _⟩
      · simp only [behind]
      · simp only [maxLineLength] at below ⊢
        omega
    next => exact ⟨_,_,rfl,⟨behind,masked.room⟩,fun _ member => List.mem_singleton.mp member⟩

end Keys

private theorem key_masked {access : Access} {s : Session} (hidden : s.hidden = true) (mode : s.cli.mode = modeExec)
    (masked : Masked s.editor) {c : UInt8} (forward : Forward c) :
    ∃ editor echo, s.key access c = some ⟨some {s with editor := editor},echo,none,[]⟩ ∧ Masked editor ∧ Bells echo := by
  have silent : ∃ editor echo, s.stays [] = some ⟨some {s with editor := editor},echo,none,[]⟩ ∧ Masked editor ∧ Bells echo :=
    ⟨s.editor,[],rfl,masked,List.forall_mem_nil _⟩
  have enter := forward.1
  have ends := forward.2.1
  unfold Session.key
  rw [if_neg enter]
  split
  next => exact ⟨s.editor,bell,rfl,masked,fun _ member => List.mem_singleton.mp member⟩
  split
  next => exact silent
  split
  next =>
    rw [Session.leaveConfig,if_neg (by simp [mode])]
    exact silent
  split
  next =>
    rw [Session.tab,if_pos (.inr (.inl hidden))]
    exact silent
  split
  next =>
    rw [if_pos (.inr hidden)]
    exact silent
  next =>
    obtain ⟨after,echo,pressed,masked_after,bells⟩ := press_masked masked forward
    refine ⟨after,echo,?_,masked_after,bells⟩
    rw [hidden,pressed]
    rfl

/-- What is known of a password in between: nothing but that it is masked. -/
def maskedEntry (access : Access) : Interaction access Unit where
  still s := s.hidden = true ∧ s.cli.mode = modeExec
  kept _ _ _ still := still
  shows e _ := Masked e
  next _ _ := ()
  admits _ c := Forward c
  answers _ _ echo := Bells echo
  key _ _ _ still masked forward := key_masked still.1 still.2 masked forward

private theorem answered_bells {access : Access} {state : Unit} {keys sent : Bytes}
    (answered : (maskedEntry access).Answered state keys sent) : Bells sent := by
  induction answered with
  | nothing => exact List.forall_mem_nil _
  | key first others ih =>
    intro c member
    obtain here | later := List.mem_append.mp member
    · exact first c here
    · exact ih c later

/-- As long as the cursor is not taken back, a terminal sees nothing of a password but bells. -/
theorem password_unseen (access : Access) (s : Session) (sound : Sound s) (hidden : s.hidden = true)
    (masked : Masked s.editor) (bytes : Bytes) (forward : ∀ c ∈ (emit decode s.decoder bytes).2, Forward c) :
    ∃ last sent, feed access bytes s = some (last,sent) ∧ last.state = s.state ∧ last.cli = s.cli ∧ Bells sent := by
  have low : s.cli = lowest := by
    apply sound.lowest
    intro enabled
    rw [Session.hidden,enabled] at hidden
    cases hidden
  have mode : s.cli.mode = modeExec := by rw [low]; rfl
  have admitted (state : Unit) (keys : Bytes) (forward : ∀ c ∈ keys, Forward c) : (maskedEntry access).Admitted state keys := by
    induction keys generalizing state with
    | nil => trivial
    | cons c rest ih =>
      obtain ⟨first,others⟩ := List.forall_mem_cons.mp forward
      exact ⟨first,ih _ others⟩
  obtain ⟨editor,sent,fed,_,answered⟩ :=
    (maskedEntry access).feed_runs bytes s () ⟨hidden,mode⟩ masked (admitted () _ forward)
  exact ⟨_,sent,fed,rfl,rfl,answered_bells answered⟩

/-- A login name that ends in `?` stays in `cmd`, in front of the password. -/
theorem password_unseen_kept :
    ∃ s entered last sent, feed (guest [] [] []) (text "admin?") fresh = some (s,entered) ∧ s.editor.l = 5 ∧
      feed (guest [] [] []) (text "lef\x08ds\x06") s = some (last,sent) ∧ last.state = s.state ∧ last.cli = s.cli ∧
      Bells sent := by
  have begins : ((feed (guest [] [] []) (text "admin?") fresh).map fun fed =>
      (fed.1.editor.l,fed.1.editor.cursor,fed.1.hidden,fed.1.cli,fed.1.decoder)) = some (5,5,true,lowest,.rest) := by
    decide +kernel
  obtain ⟨⟨s,entered⟩,typed,same⟩ := Option.map_eq_some_iff.mp begins
  simp only [Prod.mk.injEq] at same
  obtain ⟨l,cursor,hidden,low,decoder⟩ := same
  have masked : Masked s.editor := ⟨cursor.trans l.symm,by rw [l]; decide⟩
  have forward : ∀ c ∈ (emit decode s.decoder (text "lef\x08ds\x06")).2, Forward c := by
    rw [decoder]
    exact List.all_iff_forall_prop.mp (by decide)
  obtain ⟨last,sent,rest⟩ := password_unseen _ s (.inl low) hidden masked _ forward
  exact ⟨s,entered,last,sent,typed,l,rest⟩

section Leaks

/-- Characters, and the key that takes the cursor back. -/
def types (c : UInt8) (line : EditLine UInt8) : EditLine UInt8 := if c = ctrl 0x42 then line.left else line.insert c

def typesAll (line : EditLine UInt8) (keys : Bytes) : EditLine UInt8 := keys.foldl (fun line c => types c line) line

/-- What the terminal gets for such a key while nothing should be seen. -/
def leak (line : EditLine UInt8) (c : UInt8) : Bytes :=
  if c = ctrl 0x42 ∨ line.after = [] then [] else c :: line.after ++ backspaces (line.after.length + 1)

def leaks (line : EditLine UInt8) : Bytes → Bytes
  | [] => []
  | c :: rest => leak line c ++ leaks (types c line) rest

private theorem press_inserts {hidden : Bool} {e : Editor} {c : UInt8} (glyph : Glyph c) :
    e.press hidden c = e.insert hidden c := by
  have delete : c ≠ 0x7F := glyph.2
  have control (key : UInt8) (low : key < 0x20) : c ≠ key := glyph_ordinary glyph key low
  unfold Editor.press
  dsimp only
  rw [if_neg (control _ (by decide)),if_neg (not_or.mpr ⟨control _ (by decide),delete⟩),if_neg (control _ (by decide)),
    if_neg (control _ (by decide)),if_neg (control _ (by decide)),if_neg (control _ (by decide)),
    if_neg (control _ (by decide)),if_neg (control _ (by decide))]

private theorem key_leaks {access : Access} {s : Session} {line : EditLine UInt8} {c : UInt8} (hidden : s.hidden = true)
    (shows : Shows s.editor line) (admits : c = ctrl 0x42 ∨ Glyph c ∧ line.text.length < maxLineLength - 2) :
    ∃ editor, s.key access c = some ⟨some {s with editor := editor},leak line c,none,[]⟩ ∧ Shows editor (types c line) := by
  obtain back | ⟨glyph,room⟩ := admits
  · subst back
    have place := shows.cursor
    have moved := shows.moved line.left_text
    rw [key_press (.inl rfl),hidden]
    change ∃ editor, ((s.editor.moveLeft true).map fun pair => (pair.1,pair.2,Next.more)).bind _ = _ ∧ Shows editor line.left
    unfold Editor.moveLeft
    split
    next start =>
      have empty : line.before = [] := List.eq_nil_of_length_eq_zero (by omega)
      have same : line.left = line := by
        unfold EditLine.left
        rw [empty]
        obtain ⟨before,after⟩ := line
        exact congrArg (EditLine.mk · after) empty.symm
      rw [same]
      exact ⟨s.editor,rfl,shows⟩
    next => exact ⟨_,rfl,moved _ (by simp [EditLine.left,place])⟩
  · have control := glyph_ordinary glyph (ctrl 0x42) (by decide)
    have pressed : s.editor.press true c = s.editor.insert true c := press_inserts glyph
    obtain ⟨before,after⟩ := line
    simp only [EditLine.text,List.length_append] at room
    rw [key_press (.inr glyph),hidden,pressed,types,if_neg control]
    by_cases last : after = []
    · subst last
      obtain ⟨stored,longer,done⟩ := insert_last_stores true c shows
      refine ⟨_,?_,shows.inserted glyph room longer⟩
      rw [done]
      simp [Editor.typed,leak,control,Session.stays]
    · obtain ⟨stored,longer,done⟩ := insert_inner_stores true c shows last room
      refine ⟨_,?_,shows.inserted glyph room longer⟩
      rw [done]
      simp [Editor.typed,leak,control,last,Session.stays]

/-- What is known of a password in between: the line that has been typed, and all that the
terminal got of it. -/
def hiddenLine (access : Access) : Interaction access (EditLine UInt8) where
  still s := s.hidden = true
  kept _ _ _ still := still
  shows := Shows
  next := types
  admits line c := c = ctrl 0x42 ∨ Glyph c ∧ line.text.length < maxLineLength - 2
  answers line c echo := echo = leak line c
  key _ line c still shows admits := by
    obtain ⟨editor,pressed,after⟩ := key_leaks still shows admits
    exact ⟨editor,leak line c,pressed,after,rfl⟩

private theorem answered_leaks {access : Access} {line : EditLine UInt8} {keys sent : Bytes}
    (answered : (hiddenLine access).Answered line keys sent) : sent = leaks line keys := by
  induction answered with
  | nothing => rfl
  | key first others ih =>
    rw [leaks]
    exact congrArg₂ _ first ih

/-- Only the characters take room. -/
theorem hidden_admitted {access : Access} (line : EditLine UInt8) (keys : Bytes) (typed : ∀ c ∈ keys, c = ctrl 0x42 ∨ Glyph c)
    (room : line.text.length + (keys.filter (· ≠ ctrl 0x42)).length ≤ maxLineLength - 2) :
    (hiddenLine access).Admitted line keys := by
  induction keys generalizing line with
  | nil => trivial
  | cons c rest ih =>
    obtain ⟨first,others⟩ := List.forall_mem_cons.mp typed
    by_cases back : c = ctrl 0x42
    · subst back
      refine ⟨.inl rfl,ih line.left others ?_⟩
      rw [line.left_text]
      simpa using room
    · have glyph := first.resolve_left back
      have more : (List.filter (· ≠ ctrl 0x42) (c :: rest)).length = (rest.filter (· ≠ ctrl 0x42)).length + 1 := by simp [back]
      rw [more] at room
      have next : types c line = line.insert c := if_neg back
      refine ⟨.inr ⟨glyph,by omega⟩,?_⟩
      change (hiddenLine access).Admitted (types c line) rest
      rw [next]
      apply ih _ others
      rw [line.insert_text_length]
      omega

private theorem leaks_append (line : EditLine UInt8) (first second : Bytes) :
    leaks line (first ++ second) = leaks line first ++ leaks (typesAll line first) second := by
  induction first generalizing line with
  | nil => rfl
  | cons c rest ih => simp only [List.cons_append,leaks,ih,List.append_assoc,typesAll,List.foldl_cons]

private theorem typed_last (before run : Bytes) (glyphs : ∀ c ∈ run, Glyph c) :
    leaks ⟨before,[]⟩ run = [] ∧ typesAll ⟨before,[]⟩ run = ⟨before ++ run,[]⟩ := by
  induction run generalizing before with
  | nil => simp [leaks,typesAll]
  | cons c rest ih =>
    obtain ⟨glyph,others⟩ := List.forall_mem_cons.mp glyphs
    have control := glyph_ordinary glyph (ctrl 0x42) (by decide)
    have next : types c ⟨before,[]⟩ = ⟨before ++ [c],[]⟩ := if_neg control
    obtain ⟨unseen,typed⟩ := ih (before ++ [c]) others
    rw [leaks,next,unseen,typesAll,List.foldl_cons,next]
    refine ⟨by simp [leak],?_⟩
    exact typed.trans (by rw [List.append_assoc,List.singleton_append])

private theorem taken_back (before after : Bytes) (count : Nat) :
    leaks ⟨before,after⟩ (List.replicate count (ctrl 0x42)) = [] ∧
      typesAll ⟨before,after⟩ (List.replicate count (ctrl 0x42)) =
        ⟨before.take (before.length - count),before.drop (before.length - count) ++ after⟩ := by
  induction count generalizing before after with
  | zero => simp [leaks,typesAll]
  | succ count ih =>
    have next : types (ctrl 0x42) ⟨before,after⟩ = ⟨before.dropLast,before.getLast?.toList ++ after⟩ := if_pos rfl
    obtain ⟨unseen,typed⟩ := ih before.dropLast (before.getLast?.toList ++ after)
    rw [List.replicate_succ,leaks,next,unseen,typesAll,List.foldl_cons,next]
    refine ⟨by simp [leak],?_⟩
    refine typed.trans ?_
    obtain none | ⟨front,last,whole⟩ := before.eq_nil_or_concat
    · simp [none]
    · subst whole
      have short : front.length - count ≤ front.length := Nat.sub_le _ _
      have less : (front ++ [last]).length - (count + 1) = front.length - count := by simp
      simp only [less,List.concat_eq_append,List.dropLast_concat,List.getLast?_concat,Option.toList_some,
        List.take_append_of_le_length short,List.drop_append_of_le_length short,List.append_assoc]

/-- A character that is typed before the end of a password shows what follows it there. -/
theorem password_leaks (access : Access) (s : Session) (hidden : s.hidden = true) (begun : s.editor = .fresh)
    (password : Bytes) (glyphs : ∀ c ∈ password, Glyph c) (room : password.length < maxLineLength - 2) (back : Nat) (c : UInt8)
    (glyph : Glyph c) (bytes : Bytes)
    (decoded : (emit decode s.decoder bytes).2 = password ++ List.replicate back (ctrl 0x42) ++ [c]) :
    ∃ last, feed access bytes s = some (last,
        if back = 0 ∨ password = [] then []
        else c :: password.drop (password.length - back) ++ backspaces (min back password.length + 1)) ∧
      last.state = s.state ∧
      Shows last.editor ⟨password.take (password.length - back) ++ [c],password.drop (password.length - back)⟩ := by
  have control := glyph_ordinary glyph (ctrl 0x42) (by decide)
  have shows : Shows s.editor .empty := by
    rw [begun]
    exact .fresh
  have typed : ∀ key ∈ password ++ List.replicate back (ctrl 0x42) ++ [c], key = ctrl 0x42 ∨ Glyph key := by
    intro key member
    simp only [List.mem_append,List.mem_replicate,List.mem_singleton] at member
    obtain (front | ⟨_,taken⟩) | last := member
    · exact .inr (glyphs key front)
    · exact .inl taken
    · exact .inr (last ▸ glyph)
  have fits : (EditLine.text (.empty : EditLine UInt8)).length +
      ((password ++ List.replicate back (ctrl 0x42) ++ [c]).filter (· ≠ ctrl 0x42)).length ≤ maxLineLength - 2 := by
    have fewer := List.length_filter_le (· ≠ ctrl 0x42) password
    have none : (List.replicate back (ctrl 0x42)).filter (· ≠ ctrl 0x42) = [] := by simp
    have one : [c].filter (· ≠ ctrl 0x42) = [c] := by simp [control]
    rw [List.filter_append,List.filter_append,none,one]
    simp only [EditLine.empty,EditLine.text,List.append_nil,List.length_append,List.length_nil,List.length_singleton]
    omega
  obtain ⟨editor,sent,fed,after,answered⟩ :=
    (hiddenLine access).feed_runs bytes s .empty hidden shows (by rw [decoded]; exact hidden_admitted _ _ typed fits)
  rw [decoded] at after answered
  obtain ⟨unseen,first⟩ := typed_last [] password glyphs
  obtain ⟨still_unseen,second⟩ := taken_back password [] back
  have reached : typesAll .empty (password ++ List.replicate back (ctrl 0x42)) =
      ⟨password.take (password.length - back),password.drop (password.length - back)⟩ := by
    have whole : typesAll .empty (password ++ List.replicate back (ctrl 0x42)) =
        typesAll (typesAll .empty password) (List.replicate back (ctrl 0x42)) := List.foldl_append
    rw [whole]
    exact (congrArg (typesAll · _) first).trans (second.trans (congrArg (EditLine.mk _) (List.append_nil _)))
  have end_line : typesAll .empty (password ++ List.replicate back (ctrl 0x42) ++ [c]) =
      ⟨password.take (password.length - back) ++ [c],password.drop (password.length - back)⟩ := by
    have whole : typesAll .empty (password ++ List.replicate back (ctrl 0x42) ++ [c]) =
        types c (typesAll .empty (password ++ List.replicate back (ctrl 0x42))) := List.foldl_append
    rw [whole,reached]
    exact if_neg control
  have seen : sent = leak ⟨password.take (password.length - back),password.drop (password.length - back)⟩ c := by
    have nothing : leaks .empty (password ++ List.replicate back (ctrl 0x42)) = [] := by
      rw [leaks_append]
      refine (congrArg₂ (· ++ ·) unseen ((congrArg (leaks · _) first).trans still_unseen))
    rw [answered_leaks answered,leaks_append,nothing,reached]
    simp [leaks]
  change Shows editor (typesAll .empty (password ++ List.replicate back (ctrl 0x42) ++ [c])) at after
  rw [end_line] at after
  refine ⟨{s with editor := editor,decoder := (emit decode s.decoder bytes).1},?_,rfl,after⟩
  rw [fed,seen,leak]
  have nothing : password.drop (password.length - back) = [] ↔ back = 0 ∨ password = [] := by
    rw [List.drop_eq_nil_iff,← List.length_eq_zero_iff]
    omega
  have size : (password.drop (password.length - back)).length = min back password.length := by
    rw [List.length_drop]
    omega
  simp only [control,false_or,nothing,size]

/-- A guest who has typed `enable` is asked for the password. -/
def asked : Session := {fresh with state := .enablePassword}

/-- `leds`, two arrows back and an `x`. -/
theorem password_leaks_arrows :
    ∃ last, feed (guest [] [] []) (text "leds\x1b[D\x1b[Dx") asked = some (last,
        if 2 = 0 ∨ text "leds" = [] then []
        else 0x78 :: (text "leds").drop ((text "leds").length - 2) ++ backspaces (min 2 (text "leds").length + 1)) ∧
      last.state = asked.state ∧
      Shows last.editor ⟨(text "leds").take ((text "leds").length - 2) ++ [0x78],
        (text "leds").drop ((text "leds").length - 2)⟩ :=
  password_leaks _ asked rfl rfl (text "leds") (List.all_iff_forall_prop.mp (by decide)) (by decide) 2 0x78 (by decide) _ (by decide)

end Leaks

end LEDMessageBoard.PasswordEntry
