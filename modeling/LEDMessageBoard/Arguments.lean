import LEDMessageBoard.LibCli
import LEDMessageBoard.Daemon

/-! Which entries of `argv` a handler reads: only those that `argc` counts, but for the
one handler that never looks at `argc`. -/
namespace LEDMessageBoard.Arguments
open General General.Program Config LEDMessageBoard.Frame Driver Cli LibCli Daemon

def Within (argc : Nat) (before : World) (_ : Option Fault) (after : World) : Prop :=
  ∃ added, after.reads = before.reads ++ added ∧ ∀ index ∈ added, index < argc

private theorem within_composes (argc : Nat) : Composes (Within argc) := by
  refine ⟨fun w => ⟨[],(List.append_nil _).symm,nofun⟩,?_⟩
  rintro a b f c ⟨first,read,bound⟩ ⟨second,later,onward⟩
  refine ⟨first ++ second,by rw [later,read,List.append_assoc],?_⟩
  intro index member
  rcases List.mem_append.mp member with early | late
  · exact bound index early
  · exact onward index late

/-- From every state and on every path the program reads only entries that are counted. -/
def Bounded {α : Type} (argc : Nat) (program : DriverM α) : Prop := ∀ w, Leads (Within argc) program w

section Bounded

variable {argc : Nat} {α β : Type}

theorem Bounded.bind {first : DriverM α} {next : α → DriverM β} (head : Bounded argc first)
    (tail : ∀ value, Bounded argc (next value)) : Bounded argc (first >>= next) :=
  fun w => .bind (within_composes argc) (head w) fun value middle _ => tail value middle

theorem Bounded.discard {program : DriverM α} (bounded : Bounded argc program) : Bounded argc (discard program) :=
  fun w => (bounded w).discard

theorem Bounded.inSequence {programs : List (DriverM Unit)} (each : ∀ program ∈ programs, Bounded argc program) :
    Bounded argc (Program.inSequence programs) := Leads.inSequence (within_composes argc) programs each

theorem Bounded.same {program : DriverM α} (same : ∀ w, (exec program w).2.reads = w.reads) : Bounded argc program :=
  fun w => ⟨[],by rw [same,List.append_nil],nofun⟩

private theorem bounded_pure (value : α) : Bounded argc (pure value : DriverM α) := .same fun _ => rfl

private theorem bounded_throw (kind : Fault) : Bounded argc (throw kind : DriverM α) := .same fun _ => rfl

private theorem bounded_get : Bounded argc (get : DriverM World) := .same fun _ => rfl

private theorem bounded_checked (value : Except Fault α) : Bounded argc (checked value : DriverM α) :=
  .same fun w => by rw [exec_checked]

private theorem bounded_update (f : LMBCTX → LMBCTX) : Bounded argc (updateCtx f) := .same fun _ => rfl

private theorem bounded_print (line : Bytes) : Bounded argc (cliPrint line) := .same fun _ => rfl

private theorem bounded_write (limit : Option Nat) (data : Bytes) : Bounded argc (discard (serialWrite limit data)) := by
  apply Bounded.discard
  apply Bounded.bind bounded_get
  intro w
  split
  next => exact bounded_throw _
  next =>
    split
    next => exact .same fun _ => rfl
    next => exact bounded_throw _

private theorem bounded_acquire (line : Line) : Bounded argc (acquire line) := by
  apply Bounded.bind bounded_get
  intro w
  dsimp only
  split
  next =>
    split
    next => exact .bind (bounded_update _) fun _ => bounded_pure _
    next => exact bounded_throw _
  next => exact bounded_pure _

private theorem bounded_reopen (line : Line) : Bounded argc (reopen line) := by
  apply Bounded.bind bounded_get
  intro w
  split
  next => exact bounded_throw _
  next =>
    split
    next => exact bounded_pure _
    next =>
      split
      next => exact bounded_update _
      next => exact bounded_throw _

private theorem bounded_setControl (line : Line) : Bounded argc (setControl line) := by
  unfold setControl
  split
  next => exact bounded_pure _
  next => exact bounded_throw _

private theorem bounded_handshake (line : Line) : Bounded argc (handshake line) := by
  apply Bounded.bind (bounded_write _ _)
  intro _
  split
  next =>
    refine .bind (bounded_write _ _) fun _ => .bind (bounded_write _ _) fun _ => ?_
    refine .bind (bounded_write _ _) fun _ => .bind (bounded_write _ _) fun _ => ?_
    exact .bind (bounded_write _ _) fun _ => bounded_pure _
  next => exact bounded_pure _

private theorem bounded_init (line : Line) : Bounded argc (init line) := by
  apply Bounded.bind (bounded_acquire line)
  intro acquired
  split
  next => exact .bind (bounded_reopen line) fun _ => .bind (bounded_setControl line) fun _ => bounded_handshake line
  next => exact bounded_pure _

private theorem bounded_assignBit (pos : Int32) (value : Bool) : Bounded argc (assignBit pos value) := by
  apply Bounded.bind bounded_get
  intro w
  split
  next => exact bounded_update _
  next => exact bounded_throw _

private theorem bounded_sendFrames (line : Line) (pos : Int32) (message : Bytes) :
    Bounded argc (sendFrames line pos message) := by
  refine .bind (bounded_checked _) fun _ => .bind (bounded_checked _) fun _ => ?_
  refine .bind (bounded_checked _) fun _ => .bind (bounded_checked _) fun _ => ?_
  refine .bind (bounded_write _ _) fun _ => .bind (bounded_write _ _) fun _ => ?_
  exact .bind (bounded_write _ _) fun _ => bounded_write _ _

private theorem bounded_sendMask (line : Line) : Bounded argc (sendMask line) :=
  .bind bounded_get fun _ => bounded_write _ _

private theorem bounded_setMessage (line : Line) (pos : Int32) (message : Bytes) :
    Bounded argc (setMessage line pos message) := by
  have finish : Bounded argc (do sendMask line; return true) := .bind (bounded_sendMask line) fun _ => bounded_pure _
  apply Bounded.bind bounded_get
  intro w
  split
  next => exact bounded_pure _
  next =>
    dsimp only
    split
    next =>
      refine .bind (bounded_update _) fun _ => .bind (bounded_assignBit _ _) fun _ => ?_
      exact .bind (bounded_sendFrames _ _ _) fun _ => finish
    next => exact .bind (bounded_update _) fun _ => .bind (bounded_assignBit _ _) fun _ => finish

private theorem bounded_fini : Bounded argc fini := by
  apply Bounded.bind bounded_get
  intro w
  split
  next => exact bounded_throw _
  next => exact .bind (bounded_update _) fun _ => bounded_pure _

private theorem bounded_operate (line : Line) (arguments : DriverM (Int32 × Bytes)) (evaluated : Bounded argc arguments) :
    Bounded argc (operate line arguments) := by
  refine .bind (bounded_init line).discard fun _ => .bind evaluated fun request => ?_
  exact .bind (bounded_setMessage _ _ _).discard fun _ => bounded_fini.discard

end Bounded

private theorem bounded_argument (args : Args) (index : Nat) (counted : index < args.argc) :
    Bounded args.argc (argument args index) := by
  intro w
  refine ⟨[index],rfl,?_⟩
  intro other member
  rw [List.mem_singleton.mp member]
  exact counted

private theorem bounded_word (args : Args) (index : Nat) (counted : index < args.argc) :
    Bounded args.argc (word args index) := by
  apply Bounded.bind (bounded_argument args index counted)
  intro value
  cases value with
  | none => exact bounded_throw .nullArgument
  | some value => exact bounded_pure value

private theorem bounded_showPorts (host : Host) (args : Args) : Bounded args.argc (cmdShowPorts host args) := by
  refine .bind (bounded_print _) fun _ => .bind (bounded_print _) fun _ => .bind (.inSequence ?_) fun _ => .inSequence ?_
  · intro program member
    obtain ⟨index,counted,rfl⟩ := List.mem_map.mp member
    exact .bind (bounded_argument args index (List.mem_range.mp counted)) fun _ => bounded_print _
  · intro program member
    obtain ⟨info,_,rfl⟩ := List.mem_map.mp member
    exact bounded_print _

private theorem bounded_showMessages (argc : Nat) : Bounded argc cmdShowMessages := by
  refine .bind bounded_get fun w => .inSequence ?_
  intro program member
  obtain ⟨slot,_,rfl⟩ := List.mem_map.mp member
  refine .bind (.bind bounded_get fun w => ?_) fun bit => ?_
  · split
    next => exact bounded_pure _
    next => exact bounded_throw _
  · split
    next => exact .bind (bounded_update _) fun _ => .bind bounded_get fun _ => bounded_print _
    next => exact bounded_pure _

private theorem bounded_showStartupmsgs (argc : Nat) : Bounded argc cmdShowStartupmsgs := by
  refine .bind bounded_get fun w => .inSequence ?_
  intro program member
  obtain ⟨slot,_,rfl⟩ := List.mem_map.mp member
  refine .bind (bounded_update _) fun _ => .bind bounded_get fun w => ?_
  dsimp only
  split
  next => exact bounded_print _
  next => exact bounded_pure _

private theorem bounded_save (argc : Nat) (host : Host) : Bounded argc (cmdSave host) := by
  refine .bind (bounded_update _) fun _ => ?_
  split
  next => exact bounded_print _
  next => exact bounded_throw _

private theorem bounded_setStartupmsg (args : Args) : Bounded args.argc (cmdSetStartupmsg args) := by
  unfold cmdSetStartupmsg
  split
  next => exact bounded_print _
  next enough =>
    have first : Bounded args.argc (word args 0) := bounded_word args 0 (by omega)
    have second : Bounded args.argc (word args 1) := bounded_word args 1 (by omega)
    refine .bind first fun pos => .bind bounded_get fun w => ?_
    split
    next => exact bounded_print _
    next =>
      refine .bind second fun _ => .bind first fun _ => .bind (bounded_update _) fun _ => .bind first fun _ => ?_
      exact .bind (bounded_argument args 1 (by omega)) fun _ => bounded_print _

private theorem bounded_setDirectory (host : Host) (args : Args) (usage label : Bytes) (assign : Bytes → LMBCTX → LMBCTX) :
    Bounded args.argc (setDirectory host args usage label assign) := by
  unfold setDirectory
  split
  next => exact bounded_print _
  next enough =>
    have dir : Bounded args.argc (word args 0) := bounded_word args 0 (by omega)
    have shown (line : Option Bytes → Bytes) : Bounded args.argc (do let value ← argument args 0; cliPrint (line value)) :=
      .bind (bounded_argument args 0 (by omega)) fun _ => bounded_print _
    refine .bind dir fun value => ?_
    split
    next => exact bounded_throw _
    next => exact shown _
    next => exact shown _
    next => exact .bind dir fun _ => .bind (bounded_update _) fun _ => shown _

private theorem bounded_message (host : Host) (args : Args) : Bounded args.argc (cmdMessage host args) := by
  unfold cmdMessage
  split
  next => exact bounded_print _
  next enough =>
    apply bounded_operate
    exact .bind (bounded_word args 0 (by omega)) fun _ => .bind (bounded_word args 1 (by omega)) fun _ => bounded_pure _

private theorem bounded_clear (host : Host) (args : Args) : Bounded args.argc (cmdClear host args) := by
  unfold cmdClear
  split
  next => exact bounded_print _
  next enough =>
    apply bounded_operate
    exact .bind (bounded_word args 0 (by omega)) fun _ => bounded_pure _

/-- Every handler but `cmd_set_port` compares `argc` with what it reads. -/
theorem bounded_handler (command : Command) (host : Host) (args : Args) (other : command ≠ .setPort) :
    Bounded args.argc (command.handler host args) := by
  cases command with
  | set => exact bounded_pure _
  | setPort => exact absurd rfl other
  | setStartupmsg => exact bounded_setStartupmsg args
  | setLogfilepath => exact bounded_setDirectory host args _ _ _
  | setMonitorpath => exact bounded_setDirectory host args _ _ _
  | save => exact bounded_save _ host
  | showPorts => exact bounded_showPorts host args
  | showPort => exact .bind bounded_get fun _ => bounded_print _
  | showMessages => exact bounded_showMessages _
  | showStartupmsg => exact bounded_showStartupmsgs _
  | showLogfiledir => exact .bind bounded_get fun _ => bounded_print _
  | showMonitorpath => exact .bind bounded_get fun _ => bounded_print _
  | message => exact bounded_message host args
  | clear => exact bounded_clear host args

def argvReads (command : Command) (host : Host) (args : Args) (w : World) : List Nat :=
  (exec (command.handler host args) w).2.reads.drop w.reads.length

def StaysInArgv (command : Command) (host : Host) (args : Args) (w : World) : Prop :=
  ∀ index ∈ argvReads command host args w, index < args.argc

private theorem Bounded.staysInArgv (command : Command) (host : Host) (args : Args)
    (bounded : Bounded args.argc (command.handler host args)) (w : World) : StaysInArgv command host args w := by
  obtain ⟨added,read,within⟩ := bounded w
  intro index member
  rw [argvReads,read,List.drop_left] at member
  exact within index member

/-- `set port` names a port that is there, or asks for help, or has a word to spare. -/
def PortGiven (host : Host) (args : Args) : Prop :=
  1 ≤ args.argc ∧ (2 ≤ args.argc ∨ args.words.headD [] = text "?" ∨
    host.ports.any (fun info => info.port = args.words.headD []))

private theorem setListedPort_reads (args : Args) (value : Bytes) (present : args.argv 0 = some value) (infos : List PortInfo)
    (w : World) : ∃ added, (exec (setListedPort args infos) w).2.reads = w.reads ++ added ∧
      (∀ index ∈ added, index = 0 ∨ index = 1) ∧ (1 ∈ added ↔ ¬infos.any (fun info => info.port = value)) := by
  induction infos generalizing w with
  | nil => exact ⟨[1],rfl,by simp,by simp⟩
  | cons info rest ih =>
    rw [setListedPort,exec_bind_ok (exec_word args 0 value present w)]
    by_cases same : info.port = value
    · rw [if_pos same]
      exact ⟨[0],rfl,by simp,by simp [same]⟩
    · obtain ⟨added,read,low,missing⟩ := ih (noting [0] w)
      rw [if_neg same]
      refine ⟨0 :: added,by rw [read]; simp [noting],by simpa using low,?_⟩
      simp only [List.mem_cons,List.any_cons,same,decide_false,Bool.false_or]
      exact ⟨fun found => missing.mp (found.resolve_left (by decide)),fun none => .inr (missing.mpr none)⟩

private theorem setPort_reads (host : Host) (args : Args) (w : World) :
    ∃ added, (exec (cmdSetPort host args) w).2.reads = w.reads ++ added ∧ 0 ∈ added ∧
      (∀ index ∈ added, index = 0 ∨ index = 1) ∧
      (1 ≤ args.argc → (1 ∈ added ↔ args.words.headD [] ≠ text "?" ∧
        ¬host.ports.any (fun info => info.port = args.words.headD []))) := by
  cases present : args.argv 0 with
  | none =>
    rw [cmdSetPort,exec_bind_error (exec_word_null args 0 present w)]
    refine ⟨[0],rfl,by simp,by simp,?_⟩
    intro counted
    rw [argv_zero args counted] at present
    cases present
  | some value =>
    have named (counted : 1 ≤ args.argc) : value = args.words.headD [] :=
      Option.some.inj (present.symm.trans (argv_zero args counted))
    rw [cmdSetPort,exec_bind_ok (exec_word args 0 value present w)]
    by_cases help : value = text "?"
    · rw [if_pos help]
      refine ⟨[0],rfl,by simp,by simp,?_⟩
      intro counted
      rw [← named counted]
      exact ⟨fun one => absurd one (by decide),fun asked => absurd help asked.1⟩
    · obtain ⟨added,read,low,missing⟩ := setListedPort_reads args value present host.ports (noting [0] (noting [0] w))
      rw [if_neg help,exec_bind_ok (exec_discard_ok (exec_argument args 0 _))]
      refine ⟨0 :: 0 :: added,by rw [read]; simp [noting],by simp,by simpa using low,?_⟩
      intro counted
      rw [← named counted]
      simp only [List.mem_cons]
      constructor
      · rintro (zero | zero | one)
        · cases zero
        · cases zero
        · exact ⟨help,missing.mp one⟩
      · intro asked
        exact .inr (.inr (missing.mpr asked.2))

private theorem setPort_staysInArgv (host : Host) (args : Args) (w : World) :
    StaysInArgv .setPort host args w ↔ PortGiven host args := by
  obtain ⟨added,read,zero,low,one⟩ := setPort_reads host args w
  have reads : argvReads .setPort host args w = added := by
    rw [argvReads]
    exact (congrArg (List.drop w.reads.length) read).trans List.drop_left
  unfold StaysInArgv PortGiven
  rw [reads]
  constructor
  · intro stays
    have counted : 1 ≤ args.argc := stays 0 zero
    refine ⟨counted,?_⟩
    by_cases missing : 1 ∈ added
    · exact .inl (stays 1 missing)
    · have given := mt (one counted).mpr missing
      rw [not_and_or,not_not,not_not] at given
      exact .inr given
  · rintro ⟨counted,given⟩ index member
    rcases low index member with rfl | rfl
    · exact counted
    · obtain ⟨no_help,missing⟩ := (one counted).mp member
      rcases given with spare | help | listed
      · exact spare
      · exact absurd help no_help
      · exact absurd listed missing

/-- Whatever the line, the session and the context: a handler reads past its arguments
exactly if it is `cmd_set_port` and the line gives it too little. -/
theorem argv_in_bounds_iff (around : Surroundings) (cli : CliDef) (line : Bytes) (host : Host) (w : World) :
    (∀ command args, runCommand around cli registered line = .call (.handler command) args → StaysInArgv command host args w) ↔
      ∀ args, runCommand around cli registered line = .call (.handler .setPort) args → PortGiven host args := by
  constructor
  · intro stays args called
    exact (setPort_staysInArgv host args w).mp (stays .setPort args called)
  · intro given command args called
    by_cases port : command = .setPort
    · subst port
      exact (setPort_staysInArgv host args w).mpr (given args called)
    · exact (bounded_handler command host args port).staysInArgv command host args w

theorem setPort_without_argument :
    ¬∀ command args, runCommand ⟨0,fun _ => true⟩ ⟨privileged,modeExec⟩ registered (text "set port") =
      .call (.handler command) args → StaysInArgv command ⟨usualFiles,[],.answering,true⟩ args usualReached.world := by
  intro stays
  exact absurd (stays .setPort ⟨text "set port",[],[]⟩ rfl 0 (by decide)) (by decide)

end LEDMessageBoard.Arguments
