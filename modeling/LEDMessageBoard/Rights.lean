import LEDMessageBoard.CliLoop
import LEDMessageBoard.General.Transition

/-! What a client may do: the login comes before every command, and the enable password
before every command that needs privilege 15. -/
namespace LEDMessageBoard.Rights
open General Config Cli LibCli Telnet LineEditor Completion Filters CliLoop

/-- What a byte can do to the rights of a session that goes on, and the call it makes. -/
inductive Moves (access : Access) (s : Session) : Session → Option Call → Prop where
  | kept {last : Session} (cli : last.cli = s.cli) (state : last.state = s.state) : Moves access s last none
  | named {last : Session} (username : Bytes) (asked : s.state = .login) (cli : last.cli = s.cli)
    (state : last.state = .password username) : Moves access s last none
  | admitted {last : Session} (username password : Bytes) (asked : s.state = .password username)
    (typed : s.editor.cmd.string 0 = some password) (allowed : access.allows username password = some true) (cli : last.cli = s.cli)
    (state : last.state = .normal) : Moves access s last none
  | refused {last : Session} (username : Bytes) (asked : s.state = .password username) (cli : last.cli = s.cli)
    (state : last.state = .login) : Moves access s last none
  | raised {last : Session} (password : Bytes) (asked : s.state = .enablePassword)
    (typed : s.editor.cmd.string 0 = some password)
    (matched : passMatches access.crypt access.enablepass password = some true)
    (cli : last.cli = {s.cli with privilege := privileged}) (state : last.state = .enable) : Moves access s last none
  | notRaised {last : Session} (asked : s.state = .enablePassword) (cli : last.cli = s.cli)
    (state : last.state = .normal) : Moves access s last none
  | leftConfig {last : Session} (cli : last.cli = {s.cli with mode := modeExec}) (state : last.state = s.state) :
    Moves access s last none
  | ran (middle : Session) {before last : Session} {call : Option Call} (line : Bytes)
    (ready : s.state = .normal ∨ s.state = .enable) (cli : middle.cli = s.cli) (state : middle.state = s.state)
    (run : middle.run access line = (some before,call)) (cli_after : last.cli = before.cli)
    (state_after : last.state = before.state) : Moves access s last call

section Inversion

variable {access : Access} {s : Session}

private theorem stays_turn {sent : Bytes} {turn : Turn} (given : s.stays sent = some turn) :
    turn.session = some s ∧ turn.call = none := by
  cases given
  exact ⟨rfl,rfl⟩

private theorem prompts_turn {sent : Bytes} {call : Option Call} {turn : Turn} (given : s.prompts sent call = some turn) :
    turn.session = some s ∧ turn.call = call := by
  obtain ⟨_,_,same⟩ := Option.map_eq_some_iff.mp given
  subst same
  exact ⟨rfl,rfl⟩

private theorem again_turn {kept : Bool} {sent : Bytes} {call : Option Call} {turn : Turn}
    (given : s.again kept sent call = some turn) :
    ∃ editor, turn.session = some {s with editor := editor} ∧ turn.call = call := by
  obtain ⟨editor,_,prompted⟩ := Option.bind_eq_some_iff.mp given
  exact ⟨editor,prompts_turn prompted⟩

private theorem edit_turn {out : Option (Editor × Bytes)} {turn : Turn} (given : s.edit out = some turn) :
    ∃ editor, turn.session = some {s with editor := editor} ∧ turn.call = none := by
  obtain ⟨⟨editor,_⟩,_,stayed⟩ := Option.bind_eq_some_iff.mp given
  exact ⟨editor,stays_turn stayed⟩

/-- A turn that makes no call and leaves the rights as they are. -/
def Silent (s : Session) (turn : Turn) : Prop :=
  turn.call = none ∧ ∀ last, turn.session = some last → last.cli = s.cli ∧ last.state = s.state

private theorem Silent.of_editor {turn : Turn}
    (given : ∃ editor, turn.session = some {s with editor := editor} ∧ turn.call = none) :
    Silent s turn := by
  obtain ⟨editor,session,call⟩ := given
  refine ⟨call,fun last goes => ?_⟩
  cases session.symm.trans goes
  exact ⟨rfl,rfl⟩

private theorem Silent.of_stays {sent : Bytes} {turn : Turn} (given : s.stays sent = some turn) : Silent s turn :=
  .of_editor ⟨s.editor,stays_turn given⟩

private theorem tab_silent {turn : Turn} (given : s.tab = some turn) : Silent s turn := by
  unfold Session.tab at given
  split at given
  next => exact .of_stays given
  next =>
    obtain ⟨line,_,completed⟩ := Option.bind_eq_some_iff.mp given
    split at completed
    next => exact .of_stays completed
    next => exact .of_editor (edit_turn completed)
    next =>
      split at completed
      next => exact .of_editor ⟨s.editor,prompts_turn completed⟩
      next => exact .of_editor (edit_turn completed)

/-- What a turn does to the rights, for the sessions that go on and those that end. -/
def Moved (access : Access) (s : Session) (turn : Turn) : Prop :=
  match turn.session with
  | some last => Moves access s last turn.call
  | none => turn.call = none

theorem Silent.moved {turn : Turn} (silent : Silent s turn) : Moved access s turn := by
  obtain ⟨call,kept⟩ := silent
  unfold Moved
  split
  next last goes =>
    rw [call]
    exact .kept (kept last goes).1 (kept last goes).2
  next => exact call

private theorem Moved.of_again {middle : Session} {kept : Bool} {sent : Bytes} {call : Option Call} {turn : Turn}
    (given : middle.again kept sent call = some turn)
    (moves : ∀ last, last.cli = middle.cli → last.state = middle.state → Moves access s last call) : Moved access s turn := by
  obtain ⟨editor,goes,called⟩ := again_turn given
  rw [Moved,goes,called]
  exact moves _ rfl rfl

private theorem run_ends {line : Bytes} {call : Option Call} (run : s.run access line = (none,call)) : call = none := by
  unfold Session.run at run
  split at run
  next => cases run
  next => exact (congrArg Prod.snd run).symm
  next => cases run

private theorem leave_turn {kept : Bool} {sent : Bytes} {ran : Option Session × Option Call} {turn : Turn}
    (given : Session.leave kept sent ran = some turn) :
    turn.session = none ∧ ran = (none,turn.call) ∨
      ∃ before call, ran = (some before,call) ∧ before.again kept sent call = some turn := by
  obtain ⟨next,call⟩ := ran
  cases next with
  | none =>
    cases given
    exact .inl ⟨rfl,rfl⟩
  | some before => exact .inr ⟨before,call,rfl,given⟩

private theorem command_moved {kept : Bool} {sent : Bytes} {turn : Turn} (ready : s.state = .normal ∨ s.state = .enable)
    (given : s.command access kept sent = some turn) : Moved access s turn := by
  unfold Session.command at given
  split at given
  next => exact .of_again given fun last cli state => .kept cli state
  next =>
    obtain ⟨line,_,fetched⟩ := Option.bind_eq_some_iff.mp given
    obtain ⟨last,_,left⟩ := Option.bind_eq_some_iff.mp fetched
    obtain ⟨ends,run⟩ | ⟨before,call,run,again⟩ := leave_turn left
    · rw [Moved,ends]
      exact run_ends run
    · refine .of_again again fun last cli state => ?_
      refine .ran _ line ready ?_ ?_ run cli state
      all_goals rfl

private theorem enter_moved {kept : Bool} {sent : Bytes} {turn : Turn} (given : s.enter access kept sent = some turn) :
    Moved access s turn := by
  unfold Session.enter at given
  cases asked : s.state with
  | login =>
    rw [asked] at given
    dsimp only at given
    split at given
    next => exact .of_again given fun last cli state => .kept cli state
    next =>
      obtain ⟨username,_,again⟩ := Option.bind_eq_some_iff.mp given
      exact .of_again again fun last cli state => .named username asked cli state
  | password username =>
    rw [asked] at given
    obtain ⟨password,typed,checked⟩ := Option.bind_eq_some_iff.mp given
    obtain ⟨allowed,matched,again⟩ := Option.bind_eq_some_iff.mp checked
    split at again
    next yes =>
      subst yes
      exact .of_again again fun last cli state => .admitted username password asked typed matched cli state
    next => exact .of_again again fun last cli state => .refused username asked cli state
  | enablePassword =>
    rw [asked] at given
    obtain ⟨password,typed,checked⟩ := Option.bind_eq_some_iff.mp given
    obtain ⟨allowed,matched,again⟩ := Option.bind_eq_some_iff.mp checked
    split at again
    next yes =>
      subst yes
      exact .of_again again fun last cli state => .raised password asked typed matched cli state
    next => exact .of_again again fun last cli state => .notRaised asked cli state
  | normal =>
    rw [asked] at given
    exact command_moved (.inl asked) given
  | enable =>
    rw [asked] at given
    exact command_moved (.inr asked) given

private theorem leaveConfig_moved {turn : Turn} (given : s.leaveConfig = some turn) : Moved access s turn := by
  unfold Session.leaveConfig at given
  split at given
  next =>
    obtain ⟨⟨cmd,echo⟩,_,prompted⟩ := Option.bind_eq_some_iff.mp given
    obtain ⟨goes,called⟩ := prompts_turn prompted
    rw [Moved,goes,called]
    exact .leftConfig rfl rfl
  next => exact (Silent.of_stays given).moved

/-- Only a line that is shown ends with a `?`. -/
theorem press_entered {hidden : Bool} {c : UInt8} {e after : Editor} {echo : Bytes} {kept : Bool}
    (pressed : e.press hidden c = some (after,echo,.entered kept)) : hidden = false := by
  have edits (out : Option (Editor × Bytes))
      (mapped : (out.map fun pair => (pair.1,pair.2,Next.more)) = some (after,echo,.entered kept)) : hidden = false := by
    obtain ⟨_,_,same⟩ := Option.map_eq_some_iff.mp mapped
    cases same
  have typed (e : Editor) (shown : Bytes) (same : Editor.typed hidden c e shown = (after,echo,.entered kept)) :
      hidden = false := by
    unfold Editor.typed at same
    cases hidden with
    | false => rfl
    | true => cases same
  unfold Editor.press at pressed
  dsimp only at pressed
  repeat
    split at pressed
    next => exact edits _ pressed
  unfold Editor.insert at pressed
  split at pressed
  next =>
    obtain ⟨cmd,_,stored⟩ := Option.bind_eq_some_iff.mp pressed
    split at stored
    next => exact typed _ _ (Option.some.inj stored)
    next => cases stored
  next =>
    obtain ⟨moved,_,fetched⟩ := Option.bind_eq_some_iff.mp pressed
    obtain ⟨cmd,_,stored⟩ := Option.bind_eq_some_iff.mp fetched
    obtain ⟨shown,_,echoed⟩ := Option.bind_eq_some_iff.mp stored
    exact typed _ _ (Option.some.inj echoed)

/-- What a session does depends on the line it holds only where it asks for a password. -/
theorem Moved.of_same {before : Session} {turn : Turn} (moved : Moved access before turn) (cli : before.cli = s.cli)
    (state : before.state = s.state) (cmd : s.hidden = true → before.editor.cmd = s.editor.cmd) : Moved access s turn := by
  unfold Moved at moved ⊢
  split
  next last goes =>
    rw [goes] at moved
    dsimp only at moved
    generalize turn.call = call at moved
    cases moved with
    | kept same_cli same_state => exact .kept (same_cli.trans cli) (same_state.trans state)
    | named username asked same_cli next => exact .named username (state.symm.trans asked) (same_cli.trans cli) next
    | admitted username password asked typed allowed same_cli next =>
      have asked := state.symm.trans asked
      have same := cmd (by rw [Session.hidden,asked])
      exact .admitted username password asked (by rw [← same]; exact typed) allowed (same_cli.trans cli) next
    | refused username asked same_cli next => exact .refused username (state.symm.trans asked) (same_cli.trans cli) next
    | raised password asked typed matched same_cli next =>
      have asked := state.symm.trans asked
      have same := cmd (by rw [Session.hidden,asked])
      exact .raised password asked (by rw [← same]; exact typed) matched (by rw [same_cli,cli]) next
    | notRaised asked same_cli next => exact .notRaised (state.symm.trans asked) (same_cli.trans cli) next
    | leftConfig same_cli same_state => exact .leftConfig (by rw [same_cli,cli]) (same_state.trans state)
    | ran middle line ready same_cli same_state run cli_after state_after =>
      exact .ran middle line (by rw [← state]; exact ready) (same_cli.trans cli) (same_state.trans state) run cli_after
        state_after
  next ends =>
    rw [ends] at moved
    exact moved

private theorem key_moved {c : UInt8} {turn : Turn} (given : s.key access c = some turn) : Moved access s turn := by
  unfold Session.key at given
  split at given
  next => exact enter_moved given
  split at given
  next => exact (Silent.of_stays given).moved
  split at given
  next =>
    split at given
    next => exact (Silent.of_stays given).moved
    next =>
      obtain ⟨line,_,stayed⟩ := Option.bind_eq_some_iff.mp given
      exact (Silent.of_stays stayed).moved
  split at given
  next =>
    split at given
    next => exact enter_moved given
    next =>
      split at given
      next => exact (Silent.of_stays given).moved
      next =>
        cases given
        rfl
  split at given
  next => exact leaveConfig_moved given
  split at given
  next => exact (tab_silent given).moved
  split at given
  next =>
    split at given
    next => exact (Silent.of_stays given).moved
    next =>
      obtain ⟨found,_,edited⟩ := Option.bind_eq_some_iff.mp given
      exact (Silent.of_editor (edit_turn edited)).moved
  next =>
    obtain ⟨⟨editor,echo,next⟩,pressed,goes⟩ := Option.bind_eq_some_iff.mp given
    dsimp only at goes
    split at goes
    next =>
      obtain ⟨session,call⟩ := stays_turn goes
      exact (Silent.of_editor ⟨editor,session,call⟩).moved
    next kept =>
      refine (enter_moved goes).of_same rfl rfl ?_
      intro hidden
      rw [press_entered pressed] at hidden
      cases hidden

theorem input_moved {c : UInt8} {turn : Turn} (given : s.input access c = some turn) : Moved access s turn := by
  unfold Session.input at given
  dsimp only at given
  split at given
  next =>
    obtain ⟨session,call⟩ := stays_turn given
    rw [Moved,session,call]
    exact .kept rfl rfl
  next => exact (key_moved given).of_same rfl rfl fun _ => rfl

end Inversion

inductive Below : List CliCommand → CliCommand → Prop where
  | here {commands : List CliCommand} {c : CliCommand} (member : c ∈ commands) : Below commands c
  | under {commands : List CliCommand} {c d : CliCommand} (member : d ∈ commands) (below : Below d.children c) :
    Below commands c

private theorem held_below {around : Surroundings} {filters : List (List Bytes)} {cli : CliDef} {commands : List CliCommand}
    {c : CliCommand} (member : c ∈ commands) (sees : cli.sees c = true) {given args : Args} {found : Callback} {other : Found}
    (silent : ∀ found args, other ≠ .call found args)
    (called : (match c.callback with
      | some asked => callback around filters asked given
      | none => other) = .call found args) : ∃ c, Below commands c ∧ c.callback = some found ∧ cli.sees c = true := by
  split at called
  next asked held =>
    unfold callback at called
    split at called
    next => exact ⟨c,.here member,by rw [held,(Found.call.inj called).1],sees⟩
    next => cases called
  next => exact absurd called (silent _ _)

/-- The search only calls back what the session sees. -/
theorem findCommand_below (around : Surroundings) (filters : List (List Bytes)) {cli : CliDef} (plain : cli.mode ≤ modeConfig)
    (words : List Bytes) {commands : List CliCommand} (levels : Levels commands) (path : Bytes) (counted : Nat)
    {found : Callback} {args : Args} (called : findCommand around filters cli commands path counted words = .call found args) :
    ∃ c, Below commands c ∧ c.callback = some found ∧ cli.sees c = true := by
  induction words generalizing commands path counted with
  | nil => cases called
  | cons word rest ih =>
    obtain ⟨level,children⟩ := levels
    rw [findCommand] at called
    split at called
    next => cases called
    next =>
      split at called
      next => cases called
      next c after selected =>
        obtain ⟨same,member,sees,_⟩ := (select_iff level plain c after).mp selected
        subst same
        dsimp only at called
        split at called
        next => exact held_below member sees (fun _ _ same => by cases same) called
        next child others kids =>
          split at called
          next => exact held_below member sees (fun _ _ same => by cases same) called
          next =>
            split at called
            next => exact held_below member sees (fun _ _ same => by cases same) called
            next =>
              have deeper := children c member
              rw [kids] at deeper
              obtain ⟨d,below,held,seen⟩ := ih deeper _ _ called
              exact ⟨d,.under member (by rw [kids]; exact below),held,seen⟩

/-- The privilege that a handler is registered with. -/
def required (command : Command) : Int :=
  match command with
  | .set => privileged
  | .setPort => privileged
  | .setStartupmsg => privileged
  | .setLogfilepath => privileged
  | .setMonitorpath => privileged
  | .save => privileged
  | _ => unprivileged

/-- What a callback says about the command it is registered for. -/
def Registered (c : CliCommand) : Prop :=
  match c.callback with
  | some (.handler command) => c.privilege = required command ∧ c.mode = modeExec
  | some (.builtin .enable) => c.mode = modeExec
  | some (.builtin .configureTerminal) => c.privilege = privileged
  | _ => True

instance (c : CliCommand) : Decidable (Registered c) := by
  unfold Registered
  split <;> infer_instance

private theorem below_registered {c : CliCommand} (below : Below registered c) : Registered c := by
  have top : ∀ c ∈ registered, Registered c := by decide
  have inner : ∀ d ∈ registered, ∀ c ∈ d.children, Registered c ∧ c.children.length = 0 := by decide
  cases below with
  | here member => exact top c member
  | under member below =>
    cases below with
    | here inside => exact (inner _ member c inside).1
    | under inside below =>
      have bottom := List.eq_nil_of_length_eq_zero (inner _ member _ inside).2
      rw [bottom] at below
      cases below with
      | here none => cases none
      | under none _ => cases none

def lowest : CliDef := ⟨unprivileged,modeExec⟩

/-- What a session may be: without any privilege, or privileged behind the enable password. -/
def Sound (s : Session) : Prop :=
  s.cli = lowest ∨ s.cli.privilege = privileged ∧ (s.cli.mode = modeExec ∨ s.cli.mode = modeConfig) ∧ s.state = .enable

theorem Sound.fresh : Sound fresh := .inl rfl

private theorem Sound.of_same {s last : Session} (sound : Sound s) (cli : last.cli = s.cli) (state : last.state = s.state) :
    Sound last := by
  rw [Sound,cli,state]
  exact sound

/-- Outside the enabled state nothing is privileged. -/
theorem Sound.lowest {s : Session} (sound : Sound s) (other : s.state ≠ .enable) : s.cli = lowest :=
  sound.resolve_right fun raised => other raised.2.2

theorem Sound.plain {s : Session} (sound : Sound s) : s.cli.mode ≤ modeConfig := by
  obtain low | ⟨_,exec | config,_⟩ := sound
  · rw [low]
    decide
  · rw [exec]
    decide
  · exact Int.le_of_eq config

theorem Sound.low_or_high {s : Session} (sound : Sound s) : s.cli = Rights.lowest ∨ s.cli.privilege = privileged :=
  sound.imp_right fun raised => raised.1

/-- What a line does to the rights of the session, and the call it makes. -/
inductive Runs (s : Session) : Session → Option Call → Prop where
  | kept {last : Session} (cli : last.cli = s.cli) (state : last.state = s.state) : Runs s last none
  | called {last : Session} (call : Call) (cli : last.cli = s.cli) (state : last.state = s.state)
    (mode : s.cli.mode = modeExec) (allowed : required call.command ≤ s.cli.privilege) : Runs s last (some call)
  | exited {last : Session} (cli : last.cli = {s.cli with mode := modeExec}) (state : last.state = s.state) : Runs s last none
  | asked {last : Session} (cli : last.cli = s.cli) (state : last.state = .enablePassword) (before : s.cli = lowest) :
    Runs s last none
  | lowered {last : Session} (cli : last.cli = lowest) (state : last.state = s.state) : Runs s last none
  | configured {last : Session} (cli : last.cli = ⟨privileged,modeConfig⟩) (state : last.state = s.state)
    (before : s.cli.privilege = privileged) : Runs s last none

section Runs

variable {access : Access} {s : Session}

private theorem find_below (sound : Sound s) {line : Bytes} {left : List Filter} {found : Callback} {args : Args}
    {chain : List Filter}
    (called : s.find access line = (left,some (found,args,chain))) :
    ∃ c, Below registered c ∧ c.callback = some found ∧ s.cli.sees c = true := by
  unfold Session.find at called
  dsimp only at called
  split at called
  next => cases called
  next =>
    split at called
    next callback args reached =>
      have below := findCommand_below _ _ sound.plain _ registered_levels _ _ reached
      split at called
      next => cases called
      next => cases called
      next =>
        obtain ⟨_,pair⟩ := Prod.mk.inj called
        obtain ⟨same,_⟩ := Prod.mk.inj (Option.some.inj pair)
        rw [← same]
        exact below
    next => cases called

private theorem builtin_runs (sound : Sound s) {left : List Filter} {builtin : Builtin} {c : CliCommand}
    (below : Below registered c)
    (held : c.callback = some (.builtin builtin)) (sees : s.cli.sees c = true) {last : Session}
    (goes : ({s with filters := left}).builtin builtin = some last) : Runs s last none := by
  have said := below_registered below
  rw [Registered,held] at said
  obtain ⟨seen_mode,seen_privilege⟩ := of_decide_eq_true sees
  cases builtin with
  | help =>
    cases goes
    exact .kept rfl rfl
  | history =>
    cases goes
    exact .kept rfl rfl
  | quit => cases goes
  | exit =>
    simp only [Session.builtin] at goes
    split at goes
    next => cases goes
    next =>
      have plain := sound.plain
      rw [if_neg (by omega)] at goes
      cases goes
      exact .exited rfl rfl
  | enable =>
    simp only [Session.builtin,Option.some.injEq] at goes
    split at goes
    next =>
      cases goes
      exact .kept rfl rfl
    next low =>
      cases goes
      exact .asked rfl rfl (sound.low_or_high.resolve_right low)
  | disable =>
    cases goes
    exact .lowered rfl rfl
  | configureTerminal =>
    cases goes
    have before : s.cli.privilege = privileged := by
      have asked : c.privilege = privileged := said
      rw [asked] at seen_privilege
      obtain low | high := sound.low_or_high
      · rw [low] at seen_privilege
        exact absurd seen_privilege (by decide)
      · exact high
    exact .configured (by rw [← before]) rfl before

private theorem run_runs (sound : Sound s) {line : Bytes} {last : Session} {call : Option Call}
    (run : s.run access line = (some last,call)) : Runs s last call := by
  unfold Session.run at run
  split at run
  next =>
    cases run
    exact .kept rfl rfl
  next left builtin args chain found =>
    obtain ⟨c,below,held,sees⟩ := find_below sound found
    obtain ⟨goes,none⟩ := Prod.mk.inj run
    rw [← none]
    exact builtin_runs sound below held sees goes
  next left command args chain found =>
    obtain ⟨c,below,held,sees⟩ := find_below sound found
    cases run
    have said := below_registered below
    rw [Registered,held] at said
    obtain ⟨privilege,mode⟩ := said
    obtain ⟨seen_mode,seen_privilege⟩ := of_decide_eq_true sees
    rw [mode] at seen_mode
    rw [privilege] at seen_privilege
    exact .called _ rfl rfl (seen_mode.resolve_left (by decide)).symm seen_privilege

end Runs

theorem Runs.sound {s last : Session} {call : Option Call} (runs : Runs s last call) (sound : Sound s) : Sound last := by
  cases runs with
  | kept cli state => exact sound.of_same cli state
  | called call cli state => exact sound.of_same cli state
  | exited cli state =>
    obtain low | ⟨high,_,enabled⟩ := sound
    · left
      rw [cli,low]
      rfl
    · right
      rw [cli,state]
      exact ⟨high,.inl rfl,enabled⟩
  | asked cli state before => exact .inl (cli.trans before)
  | lowered cli state => exact .inl cli
  | configured cli state before =>
    obtain low | ⟨_,_,enabled⟩ := sound
    · rw [low] at before
      cases before
    · right
      rw [cli,state]
      exact ⟨rfl,.inr rfl,enabled⟩

theorem Moves.sound {access : Access} {s last : Session} {call : Option Call} (moves : Moves access s last call)
    (sound : Sound s) : Sound last := by
  have outside (other : s.state ≠ .enable) (cli : last.cli = s.cli) : Sound last := .inl (cli.trans (sound.lowest other))
  cases moves with
  | kept cli state => exact sound.of_same cli state
  | named username asked cli => exact outside (by rw [asked]; exact nofun) cli
  | admitted username password asked typed allowed cli => exact outside (by rw [asked]; exact nofun) cli
  | refused username asked cli => exact outside (by rw [asked]; exact nofun) cli
  | raised password asked typed matched cli state =>
    have low := sound.lowest (by rw [asked]; exact nofun)
    right
    rw [cli,low,state]
    exact ⟨rfl,.inl rfl,rfl⟩
  | notRaised asked cli => exact outside (by rw [asked]; exact nofun) cli
  | leftConfig cli state =>
    obtain low | ⟨high,_,enabled⟩ := sound
    · left
      rw [cli,low]
      rfl
    · right
      rw [cli,state]
      exact ⟨high,.inl rfl,enabled⟩
  | @ran middle before _ _ line ready cli state run cli_after state_after =>
    have middle_sound : Sound middle := sound.of_same cli state
    have after := (run_runs middle_sound run).sound middle_sound
    exact after.of_same cli_after state_after

/-- The bytes of one client, each with the call that it makes. The byte before the words of
a line may be another one each time. -/
inductive Step (access : Access) : System Session (UInt8 × Option Call) where
  | input {s last : Session} (c byteBefore : UInt8) (turn : Turn)
    (given : s.input {access with byteBefore := byteBefore} c = some turn) (goes : turn.session = some last) :
    Step access s (c,turn.call) last

theorem Step.moves {access : Access} {s last : Session} {label : UInt8 × Option Call} (step : Step access s label last) :
    ∃ byteBefore, Moves {access with byteBefore := byteBefore} s last label.2 := by
  cases step with
  | input c byteBefore turn given goes =>
    have moved := input_moved given
    rw [Moved,goes] at moved
    exact ⟨byteBefore,moved⟩

theorem run_sound {access : Access} {labels : List (UInt8 × Option Call)} {s : Session}
    (run : System.Run (Step access) fresh labels s) : Sound s :=
  run.invariant Sound (fun _ _ _ sound step => step.moves.elim fun _ moves => moves.sound sound) .fresh

def LoggedIn (s : Session) : Prop := s.state = .normal ∨ s.state = .enablePassword ∨ s.state = .enable

def Privileged (s : Session) : Prop := s.cli.privilege = privileged

/-- The step that accepts a name and its password. -/
def Admits (access : Access) (s last : Session) : Prop :=
  ∃ username password, s.state = .password username ∧ s.editor.cmd.string 0 = some password ∧
    access.allows username password = some true ∧ last.state = .normal

/-- The step that accepts the enable password. -/
def Raises (access : Access) (s last : Session) : Prop :=
  ∃ password, s.state = .enablePassword ∧ s.editor.cmd.string 0 = some password ∧
    passMatches access.crypt access.enablepass password = some true ∧ last.state = .enable

private theorem moves_admits {access : Access} {s last : Session} {call : Option Call} (moves : Moves access s last call)
    (outside : ¬LoggedIn s) (inside : LoggedIn last) : Admits access s last := by
  cases moves with
  | kept cli state =>
    rw [LoggedIn,state] at inside
    exact absurd inside outside
  | named username asked cli state =>
    rw [LoggedIn,state] at inside
    simp at inside
  | admitted username password asked typed allowed cli state => exact ⟨username,password,asked,typed,allowed,state⟩
  | refused username asked cli state =>
    rw [LoggedIn,state] at inside
    simp at inside
  | raised password asked => exact absurd (.inr (.inl asked)) outside
  | notRaised asked => exact absurd (.inr (.inl asked)) outside
  | leftConfig cli state =>
    rw [LoggedIn,state] at inside
    exact absurd inside outside
  | ran middle line ready => exact absurd (ready.imp_right .inr) outside

theorem moves_raises {access : Access} {s last : Session} {call : Option Call} (moves : Moves access s last call)
    (sound : Sound s) (outside : ¬Privileged s) (inside : Privileged last) : Raises access s last := by
  have same (cli : last.cli = s.cli) : Raises access s last := by
    rw [Privileged,cli] at inside
    exact absurd inside outside
  cases moves with
  | kept cli => exact same cli
  | named username asked cli => exact same cli
  | admitted username password asked typed allowed cli => exact same cli
  | refused username asked cli => exact same cli
  | raised password asked typed matched cli state => exact ⟨password,asked,typed,matched,state⟩
  | notRaised asked cli => exact same cli
  | leftConfig cli state =>
    rw [Privileged,cli] at inside
    exact absurd inside outside
  | @ran middle before _ _ line ready cli state run cli_after state_after =>
    rw [Privileged,cli_after] at inside
    rw [Privileged,← cli] at outside
    cases run_runs (sound.of_same cli state) run with
    | kept cli =>
      rw [cli] at inside
      exact absurd inside outside
    | called call cli =>
      rw [cli] at inside
      exact absurd inside outside
    | exited cli =>
      rw [cli] at inside
      exact absurd inside outside
    | asked cli =>
      rw [cli] at inside
      exact absurd inside outside
    | lowered cli =>
      rw [cli] at inside
      cases inside
    | configured cli state high => exact absurd high outside

/-- In the run of a session there is a last step of a kind, and from it on the sessions
have a property. -/
def Since (access : Access) (entry : Session → Session → Prop) (holds : Session → Prop)
    (labels : List (UInt8 × Option Call)) (s : Session) : Prop :=
  ∃ before label after middle entered, labels = before ++ label :: after ∧
    System.Run (Step access) fresh before middle ∧ Step access middle label entered ∧ entry middle entered ∧
    System.Run ((Step access).within holds) entered after s

theorem since_login {access : Access} {labels : List (UInt8 × Option Call)} {s : Session}
    (run : System.Run (Step access) fresh labels s) (inside : LoggedIn s) : Since access (Admits access) LoggedIn labels s := by
  obtain ⟨before,label,after,middle,entered,same,front,out,step,here,rear⟩ :=
    run.entered LoggedIn (by simp [LoggedIn,fresh]) inside
  obtain ⟨_,moves⟩ := step.moves
  have admits := moves_admits moves out here
  exact ⟨before,label,after,middle,entered,same,front,step,admits,rear⟩

theorem since_enable {access : Access} {labels : List (UInt8 × Option Call)} {s : Session}
    (run : System.Run (Step access) fresh labels s) (inside : Privileged s) :
    Since access (Raises access) Privileged labels s := by
  obtain ⟨before,label,after,middle,entered,same,front,out,step,here,rear⟩ :=
    run.entered Privileged (by simp [Privileged,fresh,unprivileged,privileged]) inside
  obtain ⟨_,moves⟩ := step.moves
  have raises := moves_raises moves (run_sound front) out here
  exact ⟨before,label,after,middle,entered,same,front,step,raises,rear⟩

theorem call_rights {access : Access} {s : Session} {turn : Turn} {c : UInt8} (sound : Sound s)
    (given : s.input access c = some turn) {call : Call} (called : turn.call = some call) :
    LoggedIn s ∧ s.cli.mode = modeExec ∧ (required call.command = privileged → Privileged s) := by
  have moved := input_moved given
  unfold Moved at moved
  split at moved
  next last goes =>
    rw [called] at moved
    cases moved with
    | ran middle line ready cli state run =>
      cases run_runs (sound.of_same cli state) run with
      | called _ _ _ mode allowed =>
        rw [cli] at mode allowed
        refine ⟨ready.imp_right .inr,mode,?_⟩
        intro needed
        rw [needed] at allowed
        obtain low | high := sound.low_or_high
        · rw [low] at allowed
          exact absurd allowed (by decide)
        · exact high
  next =>
    rw [called] at moved
    cases moved

end LEDMessageBoard.Rights
