import LEDMessageBoard.Recall

/-! What the loop over the bytes of a client comes to: a shell that takes one line after the
other, whatever keys the lines are typed with. -/
namespace LEDMessageBoard.Shell
open General General.Transducer Telnet Semantics LineEditor CliLoop Typing TypedLines Recall

/-- Goes on where there still is a session. -/
def follows (first : Option Session × List Call) (others : Session → Option (Option Session × List Call)) :
    Option (Option Session × List Call) :=
  first.1.elim (some first) fun next => (others next).map fun last => (last.1,first.2 ++ last.2)

/-- The bytes of a client, with the handlers that they call. -/
def converse (access : Access) : Bytes → Session → Option (Option Session × List Call)
  | [], s => some (some s,[])
  | c :: rest, s => (s.input access c).bind fun turn => follows (turn.session,turn.call.toList) (converse access rest)

/-- A whole line, from the keys that it is typed with. -/
def entered (access : Access) (s : Session) (keys : Bytes) : Option Session × List Call :=
  let line := (meansAll s.history ⟨.empty,0⟩ keys).line.text
  if line = [] then (some s,[])
  else
    let ran := ({s with history := remembered s.history line} : Session).run access line
    (ran.1,ran.2.toList)

def shell (access : Access) : List Bytes → Session → Option Session × List Call
  | [], s => (some s,[])
  | keys :: rest, s =>
    let first := entered access s keys
    first.1.elim first fun next => ((shell access rest next).1,first.2 ++ (shell access rest next).2)

/-- Bytes and the keys that they are decoded to, line by line: each line is typed at a prompt for
commands, and stays within the arrays. -/
def Lines (access : Access) : List (Bytes × Bytes) → Session → Prop
  | [], _ => True
  | line :: rest, s => (s.state = .normal ∨ s.state = .enable) ∧ emit decode .rest line.1 = (.rest,line.2) ∧
    Allowed s.history ⟨.empty,0⟩ line.2 ∧ ∀ next, (entered access s line.2).1 = some next → Lines access rest next

/-- Between two lines. -/
structure Prompted (s : Session) : Prop where
  editor : s.editor = .fresh
  decoder : s.decoder = .rest
  history : Recallable s.history

variable {access : Access} {s : Session}

private theorem follows_silent (next : Session) (others : Session → Option (Option Session × List Call)) :
    follows (some next,[]) others = others next := by
  simp [follows]

private theorem feed_converse {bytes later sent : Bytes} {last : Session} (fed : feed access bytes s = some (last,sent)) :
    converse access (bytes ++ later) s = converse access later last := by
  induction bytes generalizing s sent with
  | nil =>
    cases fed
    rfl
  | cons c rest ih =>
    obtain ⟨turn,given,goes⟩ := Option.bind_eq_some_iff.mp fed
    split at goes
    next silent =>
      obtain ⟨next,session,others⟩ := Option.bind_eq_some_iff.mp goes
      obtain ⟨both,onward,same⟩ := Option.bind_eq_some_iff.mp others
      have ends : both.1 = last := congrArg Prod.fst (Option.some.inj same)
      have call : turn.call = none := Option.isNone_iff_eq_none.mp silent
      rw [List.cons_append,converse,given,Option.bind_some,session,call]
      rw [Option.toList_none,follows_silent]
      exact @ih next both.2 (by rw [← ends]; exact onward)
    next => cases goes

private theorem typed_shows (access : Access) (prompted : Prompted s) (ready : s.state = .normal ∨ s.state = .enable)
    {bytes keys : Bytes} (decoded : emit decode .rest bytes = (.rest,keys)) (allowed : Allowed s.history ⟨.empty,0⟩ keys) :
    ∃ editor sent, feed access bytes s = some ({s with editor := editor},sent) ∧
      Shows editor (meansAll s.history ⟨.empty,0⟩ keys).line := by
  obtain ⟨fresh,rest,recallable⟩ := prompted
  rw [← rest] at decoded
  have keyed : (emit decode s.decoder bytes).2 = keys := by rw [decoded]
  obtain ⟨editor,sent,fed,after,_⟩ := feed_recalls access bytes s ⟨.empty,0⟩ (ready_visible ready) (ready_known ready)
    recallable (by rw [fresh]; exact .fresh) (by rw [fresh]; rfl) (.start s.history) (by rw [keyed]; exact allowed)
  rw [decoded] at fed after
  exact ⟨editor,sent,by rw [fed,rest],after⟩

private theorem entered_prompted (prompted : Prompted s) (ready : s.state = .normal ∨ s.state = .enable) {bytes keys : Bytes}
    (decoded : emit decode .rest bytes = (.rest,keys)) (allowed : Allowed s.history ⟨.empty,0⟩ keys) {next : Session}
    (goes : (entered access s keys).1 = some next) : Prompted next := by
  unfold entered at goes
  dsimp only at goes
  split at goes
  next =>
    cases goes
    exact prompted
  next =>
    obtain ⟨_,_,_,after⟩ := typed_shows access prompted ready decoded allowed
    obtain ⟨history,editor,decoder⟩ := run_kept access goes
    refine ⟨editor.trans prompted.editor,decoder.trans prompted.decoder,?_⟩
    rw [history]
    exact remembered_recallable prompted.history after.glyphs after.room

/-- What is run of a line does not depend on the editor that held it. -/
theorem run_prompted (access : Access) (prompted : Prompted s) (history : List Bytes) (editor : Editor) (line : Bytes) :
    (({s with editor := editor,history := history} : Session).run access line).2 =
        (({s with history := history} : Session).run access line).2 ∧
      (({s with editor := editor,history := history} : Session).run access line).1.map
        (fun next => {next with editor := .fresh}) = (({s with history := history} : Session).run access line).1 := by
  have same := run_editor access {s with history := history} editor line
  change ({s with editor := editor,history := history} : Session).run access line = _ at same
  rw [same]
  refine ⟨rfl,?_⟩
  cases ran : (({s with history := history} : Session).run access line).1 with
  | none => rfl
  | some next =>
    have kept : next.editor = .fresh := (run_kept access ran).2.1.trans prompted.editor
    obtain ⟨cli,state,history,filters,decoder,editor⟩ := next
    subst kept
    rfl

/-- One line: the loop takes its bytes, and the session is at the next line. -/
theorem converse_line (prompted : Prompted s) (ready : s.state = .normal ∨ s.state = .enable) {bytes keys : Bytes}
    (decoded : emit decode .rest bytes = (.rest,keys)) (allowed : Allowed s.history ⟨.empty,0⟩ keys) (later : Bytes) :
    converse access (bytes ++ 0x0D :: later) s = follows (entered access s keys) (converse access later) := by
  obtain ⟨editor,sent,fed,after⟩ := typed_shows access prompted ready decoded allowed
  rw [feed_converse fed,converse]
  let last : Session := {s with editor := editor}
  change ((last.input access 0x0D).bind fun turn => follows (turn.session,turn.call.toList) (converse access later)) = _
  unfold entered
  dsimp only
  split
  next empty =>
    have nothing : last.editor.l = 0 := by
      change editor.l = 0
      rw [after.l,empty]
      rfl
    obtain ⟨prompt,again⟩ := again_fresh (s := last) lineEnd none
    have back : ({last with editor := .fresh} : Session) = s := by
      change ({s with editor := .fresh} : Session) = s
      rw [← prompted.editor]
    rw [enter_command access (s := last) ready prompted.decoder,Session.command,if_pos nothing,again,back]
    rfl
  next some_text =>
    obtain ⟨turn,given,call,session⟩ := enter_runs access (s := last) ready prompted.decoder after some_text
    obtain ⟨same_call,same_session⟩ := run_prompted access prompted
      (remembered s.history (meansAll s.history ⟨.empty,0⟩ keys).line.text) editor
      (meansAll s.history ⟨.empty,0⟩ keys).line.text
    rw [given,Option.bind_some,call,session]
    change follows ((({s with editor := editor,history := _} : Session).run access _).1.map _,_) _ = _
    rw [same_session]
    change follows (_,(({s with editor := editor,history := _} : Session).run access _).2.toList) _ = _
    rw [same_call]

/-- The loop over the bytes of a client is a shell over lines. -/
theorem lines_run (access : Access) (lines : List (Bytes × Bytes)) (s : Session) (prompted : Prompted s)
    (typed : Lines access lines s) :
    converse access (lines.flatMap fun line => line.1 ++ [0x0D]) s = some (shell access (lines.map Prod.snd) s) := by
  induction lines generalizing s with
  | nil => rfl
  | cons line rest ih =>
    obtain ⟨ready,decoded,allowed,onward⟩ := typed
    rw [List.flatMap_cons,List.append_assoc,List.singleton_append]
    rw [converse_line prompted ready decoded allowed,List.map_cons,shell,follows]
    cases first : (entered access s line.2).1 with
    | none => rfl
    | some next =>
      dsimp only [Option.elim]
      rw [ih next (entered_prompted prompted ready decoded allowed first) (onward next first)]
      rfl

/-- A message, and the arrow up that brings it back. -/
def twice : List (Bytes × Bytes) := [(text "message 1 hi",text "message 1 hi"),(text "\x1b[A",text "\x10")]

example : (shell (guest [] [] []) (twice.map Prod.snd) atPrompt).2.map Call.command = [.message,.message] := by decide

private theorem atPrompt_prompted : Prompted atPrompt := by
  refine ⟨rfl,rfl,Nat.zero_le _,?_,?_⟩
  · intro entry member
    cases member
  · intro entry member
    cases member

private theorem twice_lines : Lines (guest [] [] []) twice atPrompt := by
  refine ⟨.inl rfl,by decide,by decide,?_⟩
  intro next goes
  have first : (entered (guest [] [] []) atPrompt (text "message 1 hi")).1 =
      some {atPrompt with history := [text "message 1 hi"]} := by rfl
  change (entered (guest [] [] []) atPrompt (text "message 1 hi")).1 = some next at goes
  rw [first] at goes
  cases goes
  exact ⟨.inl rfl,by decide,by decide,fun _ _ => trivial⟩

theorem lines_run_twice :
    converse (guest [] [] []) (twice.flatMap fun line => line.1 ++ [0x0D]) atPrompt =
      some (shell (guest [] [] []) (twice.map Prod.snd) atPrompt) :=
  lines_run _ twice atPrompt atPrompt_prompted twice_lines

end LEDMessageBoard.Shell
