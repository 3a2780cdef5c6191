import LEDMessageBoard.Faults
import LEDMessageBoard.Rights

/-! The daemon with all its clients: their bytes, the connections that come and go and the
files of the spool, in any order. A handler holds `io_mutex`, so it is one step. -/
namespace LEDMessageBoard.Clients
open General General.Program Config Driver Cli LibCli Daemon Faults CliLoop Rights

structure Server where
  world : World
  sessions : Nat → Option (Access × Session)

inductive Label where
  | connect (client : Nat) (access : Access)
  | input (client : Nat) (c : UInt8) (host : Host) (call : Option Call)
  /-- The end of a connection, and of a session that is idle for too long. -/
  | leave (client : Nat)
  | file (line : Line) (wd : Int32) (content : Bytes)

/-- What `Startcliloop` hands to `cli_allow_user` and `cli_allow_enable`. -/
def Knows (access : Access) (ctx : LMBCTX) : Prop :=
  access.username = cString ctx.username ∧ access.password = cString ctx.password ∧
    access.enablepass = cString ctx.enablepass

/-- The critical sections that a label stands for. -/
def Label.events : Label → List Event
  | .input _ _ host (some call) => [.cli call.command host call.args]
  | .file line wd content => [.file line wd content]
  | _ => []

/-- The daemon while it serves, as long as no handler fails. -/
inductive Step : System Server Label where
  | connect {server : Server} (client : Nat) (access : Access) (free : server.sessions client = none)
    (knows : Knows access server.world.ctx) :
    Step server (.connect client access) {server with sessions := Function.update server.sessions client (some (access,fresh))}
  | input {server : Server} (client : Nat) (c byteBefore : UInt8) (host : Host) (access : Access) (s : Session) (turn : Turn)
    (after : World) (present : server.sessions client = some (access,s))
    (given : s.input {access with byteBefore := byteBefore} c = some turn)
    (ran : exec (inSequence ((Label.input client c host turn.call).events.map Event.program)) server.world = (.ok (),after)) :
    Step server (.input client c host turn.call)
      ⟨after,Function.update server.sessions client (turn.session.map fun s => (access,s))⟩
  | leave {server : Server} (client : Nat) :
    Step server (.leave client) {server with sessions := Function.update server.sessions client none}
  | file {server : Server} (line : Line) (wd : Int32) (content : Bytes) (after : World)
    (ran : exec (inSequence ((Label.file line wd content).events.map Event.program)) server.world = (.ok (),after)) :
    Step server (.file line wd content) {server with world := after}

def Server.start (w : World) : Server := ⟨w,fun _ => none⟩

/-- What a client has typed. -/
def Label.typed (client : Nat) : Label → Option (UInt8 × Option Call)
  | .input other c _ call => if other = client then some (c,call) else none
  | _ => none

def Label.connects (client : Nat) : Label → Prop
  | .connect other _ => other = client
  | _ => False

/-- A client has connected once, with the passwords of the daemon at that time, and has
typed some bytes since then. -/
def Connected (w : World) (labels : List Label) (client : Nat) (access : Access) (typed : List (UInt8 × Option Call)) : Prop :=
  ∃ before after server, labels = before ++ .connect client access :: after ∧ (∀ label ∈ after, ¬label.connects client) ∧
    System.Run Step (.start w) before server ∧ Knows access server.world.ctx ∧ typed = after.filterMap (Label.typed client)

/-- The session of a client goes through the bytes of that client since it connected,
whatever the others do in between. -/
theorem run_session (w : World) (labels : List Label) (server : Server)
    (run : System.Run Step (.start w) labels server) (client : Nat) (access : Access) (s : Session)
    (present : server.sessions client = some (access,s)) :
    ∃ typed, Connected w labels client access typed ∧ System.Run (Rights.Step access) fresh typed s := by
  induction run generalizing s with
  | start => cases present
  | @next labels middle last label run step ih =>
    have other (kept : last.sessions client = middle.sessions client) (silent : label.typed client = none)
        (old : ¬label.connects client) :
        ∃ typed, Connected w (labels ++ [label]) client access typed ∧ System.Run (Rights.Step access) fresh typed s := by
      rw [kept] at present
      obtain ⟨typed,⟨before,after,earlier,same,fewer,front,knows,bytes⟩,session⟩ := ih s present
      refine ⟨typed,⟨before,after ++ [label],earlier,by rw [same,List.append_assoc,List.cons_append],?_,front,knows,?_⟩,session⟩
      · intro one member
        obtain inside | single := List.mem_append.mp member
        · exact fewer one inside
        · rw [List.mem_singleton.mp single]
          exact old
      · simpa [List.filterMap_append,silent] using bytes
    cases step with
    | connect new given free knows =>
      by_cases same : new = client
      · subst same
        have entered : given = access ∧ fresh = s := by simpa using present
        obtain ⟨access_same,session_same⟩ := entered
        subst access_same session_same
        exact ⟨[],⟨labels,[],middle,rfl,by simp,run,knows,rfl⟩,.start⟩
      · exact other (Function.update_of_ne (Ne.symm same) _ _) rfl same
    | input typist c byteBefore host given before turn after held took ran =>
      by_cases same : typist = client
      · subst same
        have entered : turn.session.map (fun s => (given,s)) = some (access,s) := by simpa using present
        obtain ⟨last,goes,pair⟩ := Option.map_eq_some_iff.mp entered
        obtain ⟨access_same,session_same⟩ := Prod.mk.inj pair
        subst access_same session_same
        obtain ⟨typed,⟨front,later,earlier,whole,fewer,begun,knows,bytes⟩,session⟩ := ih before held
        have step : Rights.Step given before (c,turn.call) last := .input c byteBefore turn took goes
        refine ⟨typed ++ [(c,turn.call)],⟨front,later ++ [.input typist c host turn.call],earlier,
          by rw [whole,List.append_assoc,List.cons_append],?_,begun,knows,?_⟩,session.next step⟩
        · intro one member
          obtain inside | single := List.mem_append.mp member
          · exact fewer one inside
          · rw [List.mem_singleton.mp single]
            exact id
        · rw [bytes,List.filterMap_append]
          simp [Label.typed]
      · exact other (Function.update_of_ne (Ne.symm same) _ _) (if_neg same) id
    | leave gone =>
      by_cases same : gone = client
      · subst same
        simp at present
      · exact other (Function.update_of_ne (Ne.symm same) _ _) rfl id
    | file line wd content after ran => exact other rfl rfl id

theorem session_sound {w : World} {labels : List Label} {server : Server} (run : System.Run Step (.start w) labels server)
    {client : Nat} {access : Access} {s : Session} (present : server.sessions client = some (access,s)) : Sound s := by
  obtain ⟨_,_,session⟩ := run_session w labels server run client access s present
  exact run_sound session

theorem run_client {first last : Server} {labels : List Label} (run : System.Run Step first labels last) (client : Nat)
    (access : Access) (s : Session) (present : first.sessions client = some (access,s))
    (stays : ∀ label ∈ labels, ¬label.connects client) (owner : Access) (t : Session)
    (kept : last.sessions client = some (owner,t)) :
    owner = access ∧ System.Run (Rights.Step access) s (labels.filterMap (Label.typed client)) t := by
  induction run generalizing t with
  | start =>
    have same : (access,s) = (owner,t) := Option.some.inj (present.symm.trans kept)
    obtain ⟨owner_same,session_same⟩ := Prod.mk.inj same
    subst owner_same session_same
    exact ⟨rfl,.start⟩
  | @next labels middle last label run step ih =>
    have earlier := ih fun other member => stays other (List.mem_append_left _ member)
    have here := stays label (by simp)
    have other (same : last.sessions client = middle.sessions client) (silent : label.typed client = none) :
        owner = access ∧ System.Run (Rights.Step access) s ((labels ++ [label]).filterMap (Label.typed client)) t := by
      rw [same] at kept
      simpa [List.filterMap_append,silent] using earlier t kept
    cases step with
    | connect new given free knows => exact other (Function.update_of_ne (Ne.symm here) _ _) rfl
    | input typist c byteBefore host given before turn after held took ran =>
      by_cases same : typist = client
      · subst same
        have entered : turn.session.map (fun s => (given,s)) = some (owner,t) := by simpa using kept
        obtain ⟨last,goes,pair⟩ := Option.map_eq_some_iff.mp entered
        obtain ⟨owner_same,session_same⟩ := Prod.mk.inj pair
        subst owner_same session_same
        obtain ⟨same_access,session⟩ := earlier before held
        subst same_access
        refine ⟨rfl,?_⟩
        have step : Rights.Step given before (c,turn.call) last := .input c byteBefore turn took goes
        simpa [List.filterMap_append,Label.typed] using session.next step
      · exact other (Function.update_of_ne (Ne.symm same) _ _) (if_neg same)
    | leave gone =>
      by_cases same : gone = client
      · subst same
        simp at kept
      · exact other (Function.update_of_ne (Ne.symm same) _ _) rfl
    | file line wd content after ran => exact other rfl rfl

private theorem run_world (w : World) (labels : List Label) (server : Server) (run : System.Run Step (.start w) labels server) :
    exec (inSequence ((labels.flatMap Label.events).map Event.program)) w = (.ok (),server.world) := by
  refine run.induct (fun labels server => exec (inSequence ((labels.flatMap Label.events).map Event.program)) w =
    (.ok (),server.world)) rfl ?_
  intro labels middle label last before step
  have rest : exec (inSequence (label.events.map Event.program)) middle.world = (.ok (),last.world) := by
    cases step with
    | connect => rfl
    | input client c byteBefore host access s turn after present given ran => exact ran
    | leave => rfl
    | file line wd content after ran => exact ran
  rw [List.flatMap_append,List.flatMap_singleton,List.map_append,exec_inSequence_append,exec_bind_ok before]
  exact rest

private theorem events_serving (labels : List Label) : ∀ event ∈ labels.flatMap Label.events, event.Serving := by
  intro event member
  obtain ⟨label,_,inside⟩ := List.mem_flatMap.mp member
  unfold Label.events at inside
  split at inside
  next =>
    rw [List.mem_singleton.mp inside]
    trivial
  next =>
    rw [List.mem_singleton.mp inside]
    trivial
  next => cases inside

/-- The moment when `main` gets to its accept loop. -/
def Booted (reached : Reached) : Prop := ∃ first lines, reached.events = boot reached.ctx.messages first lines

/-- The moment after some more critical sections. -/
def serve (reached : Reached) (booted : Booted reached) (events : List Event) (serving : ∀ event ∈ events, event.Serving)
    (world : World) (ran : exec (inSequence (events.map Event.program)) reached.world = (.ok (),world)) : Reached where
  toLaunch := reached.toLaunch
  events := reached.events ++ events
  history := by
    obtain ⟨first,lines,same⟩ := booted
    exact ⟨first,lines,events,serving,by simp only [same,List.prefix_rfl]⟩
  world := world
  ran := by
    rw [List.map_append,exec_inSequence_append,exec_bind_ok reached.ran]
    exact ran

/-- Whatever the clients do, the daemon is at a moment of one of its histories. -/
def served (reached : Reached) (booted : Booted reached) (labels : List Label) (server : Server)
    (run : System.Run Step (.start reached.world) labels server) : Reached :=
  serve reached booted (labels.flatMap Label.events) (events_serving labels) server.world (run_world reached.world labels server run)

private theorem served_alive (reached : Reached) (booted : Booted reached) (labels : List Label) (server : Server)
    (run : System.Run Step (.start reached.world) labels server) : Alive reached.ctx.port server.world := by
  apply (served reached booted labels server run).alive
  obtain ⟨first,lines,same⟩ := booted
  have some_event : reached.events ≠ [] := by
    rw [same]
    exact List.cons_ne_nil _ _
  exact fun none => some_event (List.append_eq_nil_iff.mp none).1

/-- The fault that ends the daemon in the critical section of a label, where it meets one. -/
def Label.failure : Label → Option Fault
  | .input _ _ host (some call) => commandFailure host call.args call.command
  | .file line wd _ => operateFailure line wd
  | _ => none

/-- What a client needs the enable password to change. -/
structure SameSettings (before after : LMBCTX) : Prop where
  port : after.port = before.port
  logpath : after.logpath = before.logpath
  monitorpath : after.monitorpath = before.monitorpath
  startup : ∀ pos, valueAt after.startupmsg pos = valueAt before.startupmsg pos
  access : ∀ access, Knows access after ↔ Knows access before

theorem SameSettings.refl (ctx : LMBCTX) : SameSettings ctx ctx := ⟨rfl,rfl,rfl,fun _ => rfl,fun _ => Iff.rfl⟩

theorem SameSettings.trans {a b c : LMBCTX} (first : SameSettings a b) (second : SameSettings b c) : SameSettings a c :=
  ⟨second.port.trans first.port,second.logpath.trans first.logpath,second.monitorpath.trans first.monitorpath,
    fun pos => (second.startup pos).trans (first.startup pos),fun access => (second.access access).trans (first.access access)⟩

def Settled (before : World) (_ : Option Fault) (after : World) : Prop := SameSettings before.ctx after.ctx

private theorem settled_composes : Composes Settled := ⟨fun w => .refl w.ctx,fun _ _ _ _ => .trans⟩

private theorem settled_same {α : Type} (program : DriverM α) (w : World) (same : (exec program w).2.ctx = w.ctx) :
    Leads Settled program w := by
  rw [Leads,Settled,same]
  exact .refl w.ctx

private theorem settled_showMessages (w : World) : Leads Settled cmdShowMessages w := by
  change Leads Settled (inSequence ((slots w.ctx.messages).map showMessage)) w
  apply Leads.inSequence settled_composes
  intro program member state
  obtain ⟨slot,_,same⟩ := List.mem_map.mp member
  subst same
  apply Leads.bind settled_composes
  · apply settled_same
    unfold readBit
    rw [exec_bind_ok (exec_get state)]
    split <;> rfl
  · intro bit middle _
    split
    next => exact ⟨rfl,rfl,rfl,fun _ => rfl,fun _ => Iff.rfl⟩
    next => exact .refl middle.ctx

private theorem subscript_value (entries : Int32 → Option Bytes) (key pos : Int32) :
    valueAt (subscript entries key) pos = valueAt entries pos := by
  unfold valueAt subscript
  by_cases same : pos = key
  · rw [same,Function.update_self,Option.getD_some]
  · rw [Function.update_of_ne same]

private theorem settled_operate (line : Line) (arguments : DriverM (Int32 × Bytes)) (pos : Int32) (message : Bytes)
    (reads : List Nat) (evaluates : ∀ v, exec arguments v = (.ok (pos,message),noting reads v)) (w : World)
    (target : Bytes) (alive : Alive target w) : Leads Settled (operate line arguments) w := by
  have outcome := operate_outcome line arguments pos message reads evaluates w target alive.resting alive.six
  unfold Leads Settled
  generalize (exec (operate line arguments) w).1 = result at outcome
  generalize (exec (operate line arguments) w).2 = final at outcome ⊢
  cases outcome with
  | notOpened => exact .refl w.ctx
  | notControlled => exact ⟨rfl,rfl,rfl,fun _ => rfl,fun _ => Iff.rfl⟩
  | rejected => exact ⟨rfl,rfl,rfl,fun _ => rfl,fun _ => Iff.rfl⟩
  | zero => exact ⟨rfl,rfl,rfl,fun _ => rfl,fun _ => Iff.rfl⟩
  | shown => exact ⟨rfl,rfl,rfl,fun _ => rfl,fun _ => Iff.rfl⟩

/-- A critical section that needs no privilege keeps the settings. -/
def Lowly : Event → Prop
  | .cli command _ _ => required command ≠ privileged
  | .file _ _ _ => True
  | _ => False

private theorem event_settled (event : Event) (lowly : Lowly event) (w : World) (target : Bytes) (alive : Alive target w) :
    Leads Settled event.program w := by
  cases event with
  | first line => exact lowly.elim
  | startup line slot => exact lowly.elim
  | file line wd content =>
    exact settled_operate line _ wd (withoutNewlines content) [] (fun v => by simp [noting]) w target alive
  | cli command host args =>
    cases command with
    | set => exact absurd rfl lowly
    | setPort => exact absurd rfl lowly
    | setStartupmsg => exact absurd rfl lowly
    | setLogfilepath => exact absurd rfl lowly
    | setMonitorpath => exact absurd rfl lowly
    | save => exact absurd rfl lowly
    | showPorts => exact leads_showPorts settled_composes (fun w _ _ => .refl w.ctx) host args w
    | showPort => exact settled_same _ w rfl
    | showMessages => exact settled_showMessages w
    | showStartupmsg =>
      exact leads_showStartupmsgs settled_composes (fun w _ _ => .refl w.ctx)
        (fun _ slot => ⟨rfl,rfl,rfl,subscript_value _ slot,fun _ => Iff.rfl⟩) w
    | showLogfiledir => exact settled_same _ w rfl
    | showMonitorpath => exact settled_same _ w rfl
    | message =>
      change Leads Settled (cmdMessage host args) w
      unfold cmdMessage
      split
      next => exact settled_same _ w rfl
      next enough =>
        refine settled_operate host.line _ args.position (args.words.getD 1 []) [0,1] ?_ w target alive
        intro v
        rw [exec_bind_ok (exec_word args 0 _ (argv_zero args (by omega)) v),
          exec_bind_ok (exec_word args 1 _ (argv_words args 1 (by omega)) _)]
        simp [noting,Args.position]
    | clear =>
      change Leads Settled (cmdClear host args) w
      unfold cmdClear
      split
      next => exact settled_same _ w rfl
      next enough =>
        refine settled_operate host.line _ args.position [] [0] ?_ w target alive
        intro v
        rw [exec_bind_ok (exec_word args 0 _ (argv_zero args (by omega)) v)]
        rfl

/-- Some session of the client is privileged. -/
def Raised (client : Nat) (server : Server) : Prop :=
  ∃ access s, server.sessions client = some (access,s) ∧ Privileged s

/-- The step in which the client hands in the enable password. -/
def RaisedBy (client : Nat) (before after : Server) : Prop :=
  ∃ access s last, before.sessions client = some (access,s) ∧ after.sessions client = some (access,last) ∧
    Raises access s last

private theorem step_raises {w : World} {labels : List Label} {middle last : Server}
    (run : System.Run Step (.start w) labels middle) {label : Label} (step : Step middle label last) {client : Nat}
    (outside : ¬Raised client middle) (inside : Raised client last) : RaisedBy client middle last := by
  have other (kept : last.sessions client = middle.sessions client) : RaisedBy client middle last := by
    rw [Raised,kept] at inside
    exact absurd inside outside
  cases step with
  | connect new given free knows =>
    by_cases same : new = client
    · subst same
      obtain ⟨access,s,present,high⟩ := inside
      have entered : given = access ∧ fresh = s := by simpa using present
      rw [← entered.2] at high
      cases high
    · exact other (Function.update_of_ne (Ne.symm same) _ _)
  | input typist c byteBefore host access s turn after present given ran =>
    by_cases same : typist = client
    · subst same
      obtain ⟨owner,next,entered,high⟩ := inside
      have found : turn.session.map (fun s => (access,s)) = some (owner,next) := by simpa using entered
      obtain ⟨last,goes,pair⟩ := Option.map_eq_some_iff.mp found
      obtain ⟨_,session_same⟩ := Prod.mk.inj pair
      subst session_same
      have low : ¬Privileged s := fun privileged => outside ⟨access,s,present,privileged⟩
      have moved := input_moved given
      rw [Moved,goes] at moved
      have raises := moves_raises moved (session_sound run present) low high
      exact ⟨access,s,last,present,by simp [goes],raises⟩
    · exact other (Function.update_of_ne (Ne.symm same) _ _)
  | leave gone =>
    by_cases same : gone = client
    · subst same
      obtain ⟨_,_,entered,_⟩ := inside
      simp at entered
    · exact other (Function.update_of_ne (Ne.symm same) _ _)
  | file line wd content after ran => exact other rfl

/-- A step of the run in which the enable password is accepted. -/
def EnableAccepted (w : World) (labels : List Label) : Prop :=
  ∃ before label after middle next client, labels = before ++ label :: after ∧ System.Run Step (.start w) before middle ∧
    Step middle label next ∧ RaisedBy client middle next

private theorem raised_accepted {w : World} {labels : List Label} {server : Server}
    (run : System.Run Step (.start w) labels server) {client : Nat} (raised : Raised client server) :
    EnableAccepted w labels := by
  have nobody : ¬Raised client (.start w) := by
    intro raised
    obtain ⟨_,_,present,_⟩ := raised
    cases present
  obtain ⟨before,label,after,middle,next,same,front,out,step,here,_⟩ := run.entered (Raised client) nobody raised
  exact ⟨before,label,after,middle,next,client,same,front,step,step_raises front step out here⟩

theorem EnableAccepted.later {w : World} {labels : List Label} (accepted : EnableAccepted w labels) (label : Label) :
    EnableAccepted w (labels ++ [label]) := by
  obtain ⟨before,entry,after,middle,next,client,same,rest⟩ := accepted
  exact ⟨before,entry,after ++ [label],middle,next,client,by rw [same,List.append_assoc,List.cons_append],rest⟩

private theorem step_lowly {w : World} {labels : List Label} {middle last : Server}
    (run : System.Run Step (.start w) labels middle) {label : Label} (step : Step middle label last) :
    (∀ event ∈ label.events, Lowly event) ∨ ∃ client, Raised client middle := by
  cases step with
  | connect => exact .inl fun event none => by cases none
  | leave => exact .inl fun event none => by cases none
  | file line wd content after ran =>
    left
    intro event member
    rw [List.mem_singleton.mp member]
    trivial
  | input client c byteBefore host access s turn after present given ran =>
    cases called : turn.call with
    | none => exact .inl fun event none => by cases none
    | some call =>
      by_cases needs : required call.command = privileged
      · obtain ⟨_,_,high⟩ := call_rights (session_sound run present) given called
        exact .inr ⟨client,access,s,present,high needs⟩
      · left
        intro event member
        rw [List.mem_singleton.mp member]
        exact needs

/-- Whatever clients do in whatever order, the port, the directories, the startup messages
and the passwords stay as they are until the enable password has been accepted. -/
theorem settings_need_enable (reached : Reached) (booted : Booted reached) (labels : List Label) (server : Server)
    (run : System.Run Step (.start reached.world) labels server) :
    SameSettings reached.world.ctx server.world.ctx ∨ EnableAccepted reached.world labels := by
  induction run with
  | start => exact .inl (.refl _)
  | @next labels middle last label run step ih =>
    obtain same | accepted := ih
    · obtain lowly | ⟨client,raised⟩ := step_lowly run step
      · left
        apply same.trans
        have alive := served_alive reached booted labels middle run
        have settled : ∀ events : List Event, (∀ event ∈ events, Lowly event) → events.length ≤ 1 →
            Leads Settled (inSequence (events.map Event.program)) middle.world := by
          intro events lowly few
          cases events with
          | nil => exact .pure settled_composes _ _
          | cons event rest =>
            have none : rest = [] := List.eq_nil_of_length_eq_zero (by rw [List.length_cons] at few; omega)
            subst none
            apply Leads.bind settled_composes
            · exact event_settled event (lowly event List.mem_cons_self) _ _ alive
            · intro _ after _
              exact .pure settled_composes _ after
        have moved := settled label.events lowly (by unfold Label.events; split <;> simp)
        cases step with
        | connect => exact .refl _
        | leave => exact .refl _
        | input client c byteBefore host access s turn after present given ran =>
          rw [Leads,ran] at moved
          exact moved
        | file line wd content after ran =>
          rw [Leads,ran] at moved
          exact moved
      · exact .inr ((raised_accepted run raised).later label)
    · exact .inr (accepted.later label)

/-- In every order of the clients' bytes: who makes a call has logged in before, with the name
and password of the daemon, and where the call needs it has handed in the enable password
since then without losing the privilege. -/
theorem calls_authorised (w : World) (labels : List Label) (server : Server)
    (run : System.Run Step (.start w) labels server) (client : Nat) (access : Access) (s : Session)
    (present : server.sessions client = some (access,s)) (c byteBefore : UInt8) (turn : Turn)
    (given : s.input {access with byteBefore := byteBefore} c = some turn) (call : Call) (called : turn.call = some call) :
    ∃ typed, Connected w labels client access typed ∧ Since access (Admits access) LoggedIn typed s ∧
      (required call.command = privileged → Since access (Raises access) Privileged typed s) := by
  obtain ⟨typed,connected,session⟩ := run_session w labels server run client access s present
  obtain ⟨inside,_,high⟩ := call_rights (run_sound session) given called
  refine ⟨typed,connected,since_login session inside,?_⟩
  intro needed
  exact since_enable session (high needed)

theorem run_typing {first : Server} {labels : List Label} {server : Server} (run : System.Run Step first labels server)
    (client : Nat) (access : Access) (bytes : Bytes) (s last : Session) (sent : Bytes)
    (present : server.sessions client = some (access,s)) (typed : feed access bytes s = some (last,sent)) (host : Host) :
    System.Run Step first (labels ++ bytes.map fun c => .input client c host none)
      {server with sessions := Function.update server.sessions client (some (access,last))} := by
  induction bytes generalizing labels server s sent with
  | nil =>
    have done : s = last := congrArg Prod.fst (Option.some.inj typed)
    have same : Function.update server.sessions client (some (access,last)) = server.sessions := by
      rw [← done,← present]
      exact Function.update_eq_self client server.sessions
    rw [same,List.map_nil,List.append_nil]
    exact run
  | cons c rest ih =>
    obtain ⟨turn,given,goes⟩ := Option.bind_eq_some_iff.mp typed
    split at goes
    next silent =>
      obtain ⟨middle,on,tail⟩ := Option.bind_eq_some_iff.mp goes
      obtain ⟨⟨end_session,end_sent⟩,fed,same⟩ := Option.bind_eq_some_iff.mp tail
      have final : end_session = last := congrArg Prod.fst (Option.some.inj same)
      subst final
      have none : turn.call = none := Option.isNone_iff_eq_none.mp silent
      have step := Step.input client c access.byteBefore host access s turn server.world present given (by rw [none]; rfl)
      rw [on,none] at step
      have ran := ih (run.next step) middle end_sent (by simp) fed
      simpa using ran
    next => cases goes

theorem connected_types (w : World) (access : Access) (knows : Knows access w.ctx) (host : Host) (bytes : Bytes)
    (last : Session) (sent : Bytes) (typed : feed access bytes fresh = some (last,sent)) :
    System.Run Step (.start w) (.connect 0 access :: bytes.map fun c => .input 0 c host none)
      ⟨w,Function.update (fun _ => none) 0 (some (access,last))⟩ := by
  have begun : System.Run Step (.start w) [.connect 0 access]
      ⟨w,Function.update (fun _ => none) 0 (some (access,fresh))⟩ := System.Run.start.next (.connect 0 access rfl knows)
  have ran := run_typing begun 0 access bytes fresh last sent rfl typed host
  simpa using ran

def quietHost : Host := ⟨usualFiles,[],.answering,true⟩

/-- The client logs in, hands in the enable password and runs `set port`, in which the daemon
meets its end. -/
theorem calls_authorised_setPort :
    ∃ labels server access s turn call, System.Run Step (.start (.start (mainDefaults false))) labels server ∧
      server.sessions 0 = some (access,s) ∧ s.input {access with byteBefore := 0} 0x0D = some turn ∧ turn.call = some call ∧
      required call.command = privileged ∧ commandFailure quietHost call.args call.command = some .nullArgument ∧
      ∃ typed, Connected (.start (mainDefaults false)) labels 0 access typed ∧
        Since access (Admits access) LoggedIn typed s ∧
        (required call.command = privileged → Since access (Raises access) Privileged typed s) := by
  let access := guest (text "Admin") (text "password") (text "enable")
  have enters : (((feed access (text "Admin\rpassword\ren\renable\rset port") fresh).bind fun fed =>
      (fed.1.input {access with byteBefore := 0} 0x0D).bind fun turn => turn.call).map
        fun call => (call.command,commandFailure quietHost call.args call.command)) = some (.setPort,some .nullArgument) := by
    decide +kernel
  obtain ⟨call,entered,outcome⟩ := Option.map_eq_some_iff.mp enters
  obtain ⟨command,failure⟩ := Prod.mk.inj outcome
  obtain ⟨⟨last,sent⟩,typed,turned⟩ := Option.bind_eq_some_iff.mp entered
  obtain ⟨turn,given,called⟩ := Option.bind_eq_some_iff.mp turned
  have knows : Knows access (mainDefaults false) := ⟨by decide,by decide,by decide⟩
  have ran := connected_types (.start (mainDefaults false)) access knows quietHost _ last sent typed
  refine ⟨_,_,access,last,turn,call,ran,rfl,given,called,by rw [command]; rfl,failure,?_⟩
  exact calls_authorised _ _ _ ran 0 access last rfl 0x0D 0 turn given call called

theorem usualReached_booted : Booted usualReached := ⟨.answering,fun _ => .answering,rfl⟩

private theorem raised_run : ∃ labels server, System.Run Step (.start usualReached.world) labels server ∧ Raised 0 server := by
  let access := guest (text "admin") (text "password") (text "password")
  have enters : ((feed access (text "admin\rpassword\ren\rpassword\r") fresh).map fun fed => fed.1.cli.privilege) =
      some privileged := by decide +kernel
  obtain ⟨⟨last,sent⟩,typed,high⟩ := Option.map_eq_some_iff.mp enters
  have knows : Knows access usualReached.world.ctx := ⟨by decide +kernel,by decide +kernel,by decide +kernel⟩
  exact ⟨_,_,connected_types usualReached.world access knows quietHost _ last sent typed,access,last,rfl,high⟩

theorem settings_need_enable_raised :
    ∃ labels server, System.Run Step (.start usualReached.world) labels server ∧ Raised 0 server ∧
      (SameSettings usualReached.world.ctx server.world.ctx ∨ EnableAccepted usualReached.world labels) := by
  obtain ⟨labels,server,ran,raised⟩ := raised_run
  exact ⟨labels,server,ran,raised,settings_need_enable usualReached usualReached_booted labels server ran⟩

end LEDMessageBoard.Clients
