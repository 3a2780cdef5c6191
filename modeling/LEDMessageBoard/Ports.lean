import LEDMessageBoard.Daemon

/-! Which device the bytes go to. The `Serial` object is built once, with the port that is
configured then, and every later `Init` reopens that one. -/
namespace LEDMessageBoard.Ports
open General General.Program Config Escape Driver Cli Daemon

/-- Everything an event sends goes to the configured port, and so does the line that its
`Init` opens. -/
structure FollowsPort (event : Event) (w : World) : Prop where
  bytes : ∀ transmission ∈ (exec event.program w).2.wire.drop w.wire.length, transmission.device = w.ctx.port
  opened : ∀ line, event.initLine w.ctx = some line → ∀ sp, (exec (init line) w).2.ctx.sp = some sp →
    sp.isOpen = true → sp.port = w.ctx.port

/-- The port that `set port` chooses: a listed one. -/
def chosen (host : Host) (args : Args) (port : Bytes) : Bytes :=
  match args.argv 0 with
  | none => port
  | some value => if value ≠ text "?" ∧ host.ports.any (fun info => info.port = value) then value else port

def portAfter (port : Bytes) : Event → Bytes
  | .cli .setPort host args => chosen host args port
  | _ => port

def configured (port : Bytes) (events : List Event) : Bytes := events.foldl portAfter port

private theorem setListedPort_port (args : Args) (value : Bytes) (present : args.argv 0 = some value) (infos : List PortInfo)
    (w : World) : (exec (setListedPort args infos) w).2.ctx.port =
      if infos.any (fun info => info.port = value) then value else w.ctx.port := by
  induction infos generalizing w with
  | nil => rfl
  | cons info rest ih =>
    rw [setListedPort,exec_bind_ok (exec_word args 0 value present w)]
    by_cases same : info.port = value
    · rw [if_pos same,if_pos (by simp [same])]
      exact same
    · rw [if_neg same,ih]
      simp [same,noting]

private theorem setPort_port (host : Host) (args : Args) (w : World) :
    (exec (cmdSetPort host args) w).2.ctx.port = chosen host args w.ctx.port := by
  cases present : args.argv 0 with
  | none =>
    rw [cmdSetPort,exec_bind_error (exec_word_null args 0 present w),chosen,present]
    rfl
  | some value =>
    rw [cmdSetPort,exec_bind_ok (exec_word args 0 value present w),chosen,present]
    by_cases help : value = text "?"
    · simp [help,cliPrint,noting]
    · rw [if_neg help,exec_bind_ok (exec_discard_ok (exec_argument args 0 _)),setListedPort_port args value present]
      simp [help,noting]

private theorem quiet_port (event : Event) (w final : World) (kind : Option Fault)
    (other : ∀ host args, event ≠ .cli .setPort host args) (quiet : Quiet event.Ports event.Startups w kind final) : final.ctx.port = w.ctx.port := by
  rcases quiet.port with same | chosen
  · exact same
  · cases event with
    | cli command host args =>
      cases command with
      | setPort => exact absurd rfl (other host args)
      | _ => exact chosen.elim
    | _ => exact chosen.elim

private theorem outcome_port (line : Line) (pos : Int32) (message : Bytes) (w final : World) (result : Except Fault Unit)
    (outcome : Outcome line pos message w result final) : final.ctx.port = w.ctx.port := by
  cases outcome <;> rfl

private theorem step_port (event : Event) (w final : World) (ran : exec event.program w = (.ok (),final))
    (step : Step event w (.ok ()) final) : final.ctx.port = portAfter w.ctx.port event := by
  by_cases sets : ∃ host args, event = .cli .setPort host args
  · obtain ⟨host,args,rfl⟩ := sets
    have port := setPort_port host args w
    change exec (cmdSetPort host args) w = _ at ran
    rw [ran] at port
    exact port
  · have other : ∀ host args, event ≠ .cli .setPort host args := fun host args same => sets ⟨host,args,same⟩
    have same : portAfter w.ctx.port event = w.ctx.port := by
      cases event with
      | cli command host args =>
        cases command with
        | setPort => exact absurd rfl (other host args)
        | _ => rfl
      | _ => rfl
    rw [same]
    cases step with
    | quiet _ _ silent quiet => exact quiet_port event w final _ other quiet
    | operated line pos message startupmsg _ _ sends kept outcome =>
      exact (outcome_port line pos message _ final _ outcome).trans rfl

/-- The commands of the run alone say which port is configured. -/
theorem run_port (reached : Reached) : reached.world.ctx.port = configured reached.ctx.port reached.events := by
  refine (run_induction reached.toLaunch (fun events w => w.ctx.port = configured reached.ctx.port events) rfl
    ?_ ?_ reached.events reached.history reached.world reached.ran).1
  · intro line final outcome
    cases outcome with
    | done set ready => rfl
  · intro events event w final _ held _ _ _ one step
    rw [step_port event w final one step,held,configured,configured,List.foldl_append]
    rfl

private theorem outcome_wire (line : Line) (pos : Int32) (message : Bytes) (w final : World) (result : Except Fault Unit)
    (outcome : Outcome line pos message w result final) :
    ∃ added : List Bytes, final.wire = w.wire ++ added.map fun bytes => ⟨device w.ctx,bytes⟩ := by
  cases outcome with
  | notOpened refused => exact ⟨[],by simp⟩
  | notControlled opens refused => exact ⟨[],by simp⟩
  | rejected reads ready outside nonzero => exact ⟨handshakeChunks line,rfl⟩
  | zero reads ready is_zero => exact ⟨handshakeChunks line,rfl⟩
  | shown reads ready slot =>
    refine ⟨handshakeChunks line ++ chunks line pos (trim message) (maskFrame (recorded (noting reads (initiated line w))
      pos (trim message)).ctx),?_⟩
    rw [List.map_append,← List.append_assoc]
    rfl

private theorem first_wire (line : Line) (w final : World) (result : Except Fault Unit)
    (outcome : FirstOutcome line w result final) :
    ∃ added : List Bytes, final.wire = w.wire ++ added.map fun bytes => ⟨device w.ctx,bytes⟩ := by
  cases outcome with
  | noLine unset => exact ⟨[],by simp⟩
  | notOpened set refused => exact ⟨[],by simp⟩
  | notControlled set opens refused => exact ⟨[],by simp⟩
  | done set ready => exact ⟨handshakeChunks line,rfl⟩

private theorem added_device (w final : World) (target : Bytes)
    (wire : ∃ added : List Bytes, final.wire = w.wire ++ added.map fun bytes => ⟨target,bytes⟩) :
    ∀ transmission ∈ final.wire.drop w.wire.length, transmission.device = target := by
  obtain ⟨added,same⟩ := wire
  rw [same,List.drop_left]
  intro transmission member
  obtain ⟨bytes,_,rfl⟩ := List.mem_map.mp member
  rfl

/-- Whatever `Init` does, an open object is on the device that it had or was given. -/
theorem init_device (line : Line) (w : World) (sp : Serial) (object : (exec (init line) w).2.ctx.sp = some sp)
    (is_open : sp.isOpen = true) : sp.port = device w.ctx := by
  have untouched : w.ctx.sp = some sp → sp.port = device w.ctx := fun same => by rw [device,same]
  rw [exec_init] at object
  split at object
  next => exact untouched object
  next =>
    split at object
    next => exact untouched object
    next =>
      split at object
      next =>
        cases object
        rfl
      next =>
        rw [exec_handshake line _ (device w.ctx) rfl] at object
        split at object <;> cases object <;> rfl

private theorem init_opens (line : Line) (w : World) (usable : ¬NoLine w.ctx) (opens : line.opens = true) :
    (exec (init line) w).2.ctx.sp = some ⟨device w.ctx,true⟩ := by
  rw [exec_init,if_neg usable,if_neg (by simp [opens])]
  split
  next => rfl
  next =>
    rw [exec_handshake line _ (device w.ctx) rfl]
    split <;> rfl

private theorem follows_same (event : Event) (w : World) (same : device w.ctx = w.ctx.port)
    (wire : ∃ added : List Bytes, (exec event.program w).2.wire = w.wire ++ added.map fun bytes => ⟨device w.ctx,bytes⟩) :
    FollowsPort event w :=
  ⟨same ▸ added_device w _ _ wire,fun line _ sp object is_open => same ▸ init_device line w sp object is_open⟩

/-- An event whose device does not open sends nothing. -/
theorem refused_wire (event : Event) (w final : World) (result : Except Fault Unit) (later : ∀ line, event ≠ .first line)
    (refused : ∀ line, event.initLine w.ctx = some line → line.opens = false) (step : Step event w result final) :
    final.wire = w.wire := by
  cases step with
  | quiet _ _ silent quiet => exact quiet.wire
  | operated line pos message startupmsg _ _ sends kept outcome =>
    have runs : event.initLine w.ctx = some line := by
      cases event with
      | first other => exact absurd rfl (later other)
      | _ => exact congrArg (Option.map fun request => request.1) sends
    have closed := refused line runs
    cases outcome with
    | notOpened _ => rfl
    | notControlled opens _ => exact absurd opens (by simp [closed])
    | rejected reads ready _ _ => exact absurd ready.1 (by simp [closed])
    | zero reads ready _ => exact absurd ready.1 (by simp [closed])
    | shown reads ready _ => exact absurd ready.1 (by simp [closed])

private theorem later_follows (event : Event) (w : World) (target : Bytes) (alive : Alive target w)
    (later : ∀ line, event ≠ .first line) (step : Step event w (exec event.program w).1 (exec event.program w).2) :
    FollowsPort event w ↔ ∀ line, event.initLine w.ctx = some line → line.opens = true → w.ctx.port = target := by
  have resting := alive.resting
  unfold Resting at resting
  have named : device w.ctx = target := by rw [device,resting]
  have usable : ¬NoLine w.ctx := by simp [NoLine,resting]
  constructor
  · intro follows line runs opens
    have object := init_opens line w usable opens
    rw [named] at object
    exact (follows.opened line runs _ object rfl).symm
  · intro settled
    by_cases same : w.ctx.port = target
    · apply follows_same event w (named.trans same.symm)
      cases step with
      | quiet _ _ silent quiet => exact ⟨[],by rw [quiet.wire]; simp⟩
      | operated line pos message startupmsg _ _ sends kept outcome =>
        obtain ⟨added,same⟩ := outcome_wire line pos message _ _ _ outcome
        exact ⟨added,same⟩
    · have refused : ∀ line, event.initLine w.ctx = some line → line.opens = false := by
        intro line runs
        by_contra opens
        exact same (settled line runs (by simpa using opens))
      have must : MustOpen w.ctx := by simp [MustOpen,resting]
      constructor
      · have unsent := refused_wire event w _ _ later refused step
        rw [unsent,List.drop_length]
        intro transmission member
        cases member
      · intro line runs sp object is_open
        rw [exec_init_notOpened line w usable must (refused line runs)] at object
        change w.ctx.sp = some sp at object
        rw [resting] at object
        cases object
        cases is_open

/-- At every moment of every run, an event follows the configured port exactly if it
opens no line or the commands so far leave the port of `main`'s first `Init` configured. -/
theorem port_followed (reached : Reached) (event : Event) (next : reached.Next event) :
    FollowsPort event reached.world ↔
      ∀ line, event.initLine reached.world.ctx = some line → line.opens = true →
        configured reached.ctx.port reached.events = reached.ctx.port := by
  rw [← run_port reached]
  rcases reached.next_step event next with ⟨empty,start,line,rfl,outcome⟩ | ⟨begun,alive,step⟩
  · have same : reached.world.ctx.port = reached.ctx.port := by rw [start]; rfl
    have named : device reached.world.ctx = reached.world.ctx.port := by
      rw [start]
      change device reached.ctx = reached.ctx.port
      rw [device,reached.toLaunch.started.sp]
    exact ⟨fun _ _ _ _ => same,fun _ => follows_same _ _ named (first_wire line _ _ _ outcome)⟩
  · exact later_follows event reached.world _ alive (History.tail next begun).1 step

def portsHost : Host :=
  ⟨usualFiles,[⟨text "/dev/ttyS0",text "serial"⟩,⟨text "/dev/ttyUSB0",text "adapter"⟩],.answering,true⟩

def setPortS0 : Event := .cli .setPort portsHost ⟨text "port",[text "/dev/ttyS0"],[]⟩

def messageOne : Event := .cli .message portsHost ⟨text "message",[text "1",text "A"],[]⟩

theorem port_followed_unset : FollowsPort messageOne usualReached.world :=
  (port_followed usualReached messageOne (usualReached_next _ trivial)).mpr fun _ _ _ => by decide +kernel

def portSet : Reached := usualReached.extend setPortS0 (usualReached_next _ trivial) (by decide +kernel)

/-- After `set port /dev/ttyS0` the message still goes to the port of the startup. -/
theorem port_kept : ¬FollowsPort messageOne portSet.world := by
  intro follows
  have strays := follows.bytes
  exact absurd strays (by decide +kernel)

end LEDMessageBoard.Ports
