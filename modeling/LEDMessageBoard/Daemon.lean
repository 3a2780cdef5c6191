import LEDMessageBoard.CliRuns
import Mathlib.Data.List.Induction

/-! The runs of the daemon: `main` up to the accept loop, then CLI commands and file
events in any order, one critical section after another. -/
namespace LEDMessageBoard.Daemon
open General General.Program Config Driver Cli

def firstSequence (line : Line) : DriverM Unit := do
  discard (init line)
  discard startUp
  discard fini

def startupMessage (line : Line) (slot : Int32) : DriverM Unit := do
  updateCtx fun ctx => {ctx with startupmsg := subscript ctx.startupmsg slot}
  let message := valueAt (← get).ctx.startupmsg slot
  if message.length > 0 then deliver line slot message

/-- `message.erase(std::remove(message.begin(), message.end(), '\n'), message.end())` -/
def withoutNewlines (content : Bytes) : Bytes := content.filter (· ≠ 10)

/-- The critical section of `MonitorFiles`. The watch descriptor is the slot. -/
def monitorFile (line : Line) (wd : Int32) (content : Bytes) : DriverM Unit := deliver line wd (withoutNewlines content)

inductive Event where
  | first (line : Line)
  | startup (line : Line) (slot : Int32)
  | cli (command : Command) (host : Host) (args : Args)
  | file (line : Line) (wd : Int32) (content : Bytes)

def Event.program : Event → DriverM Unit
  | .first line => firstSequence line
  | .startup line slot => startupMessage line slot
  | .cli command host args => command.handler host args
  | .file line wd content => monitorFile line wd content

def boot (messages : UInt32) (first : Line) (lines : Int32 → Line) : List Event :=
  .first first :: (slots messages).map fun slot => .startup (lines slot) slot

def Event.Serving : Event → Prop
  | .first _ => False
  | .startup _ _ => False
  | .cli _ _ _ => True
  | .file _ _ _ => True

def History (messages : UInt32) (events : List Event) : Prop :=
  ∃ first lines later, (∀ event ∈ later, event.Serving) ∧ events <+: boot messages first lines ++ later

def Event.delivery (ctx : LMBCTX) : Event → Option (Line × Int32 × Bytes)
  | .first _ => none
  | .startup line slot =>
    if (valueAt ctx.startupmsg slot).length > 0 then some (line,slot,valueAt ctx.startupmsg slot) else none
  | .cli .message host args =>
    if args.argc < 2 then none else some (host.line,args.position,args.words.getD 1 [])
  | .cli .clear host args => if args.argc < 1 then none else some (host.line,args.position,[])
  | .cli _ _ _ => none
  | .file line wd content => some (line,wd,withoutNewlines content)

def Event.initLine (event : Event) (ctx : LMBCTX) : Option Line :=
  match event with
  | .first line => some line
  | event => (event.delivery ctx).map fun request => request.1

def Event.Ports : Event → Bytes → Prop
  | .cli .setPort host _ => fun port => ∃ info ∈ host.ports, info.port = port
  | _ => fun _ => False

def Event.Startups : Event → Int32 → Prop
  | .cli .setStartupmsg _ args => fun pos => args.Passes ∧ pos = args.position
  | _ => fun _ => False

inductive FirstOutcome (line : Line) (w : World) : Except Fault Unit → World → Prop where
  | noLine (unset : w.ctx.port = []) : FirstOutcome line w (.error .nullSerial) w
  | notOpened (set : w.ctx.port ≠ []) (refused : line.opens = false) : FirstOutcome line w (.error .openFailed) w
  | notControlled (set : w.ctx.port ≠ []) (opens : line.opens = true) (refused : line.control = false) :
    FirstOutcome line w (.error .controlFailed) (opened w)
  | done (set : w.ctx.port ≠ []) (ready : Line.Ready line) : FirstOutcome line w (.ok ()) (closed (initiated line w))

inductive Step (event : Event) (w : World) : Except Fault Unit → World → Prop where
  | quiet (result : Except Fault Unit) (final : World) (silent : event.delivery w.ctx = none)
    (step : Quiet event.Ports event.Startups w (fault result) final) : Step event w result final
  | operated (line : Line) (pos : Int32) (message : Bytes) (startupmsg : Int32 → Option Bytes)
    (result : Except Fault Unit) (final : World) (sends : event.delivery w.ctx = some (line,pos,message))
    (kept : ∀ slot, startupmsg slot = w.ctx.startupmsg slot ∨ w.ctx.InRange slot)
    (outcome : Outcome line pos message {w with ctx := {w.ctx with startupmsg := startupmsg}} result final) :
    Step event w result final

theorem first_outcome (line : Line) (w : World) (absent : w.ctx.sp = none) :
    FirstOutcome line w (exec (firstSequence line) w).1 (exec (firstSequence line) w).2 := by
  unfold firstSequence
  have must : MustOpen w.ctx := by simp [MustOpen,absent]
  by_cases unset : w.ctx.port = []
  · have noLine : NoLine w.ctx := ⟨absent,unset⟩
    rw [exec_bind_ok (exec_discard_ok (exec_init_noLine line w noLine)),exec_bind_ok (exec_discard_ok (exec_startUp _)),
      exec_discard_error (exec_fini_null w absent)]
    exact .noLine unset
  · have usable : ¬NoLine w.ctx := fun none => unset none.2
    by_cases opens : line.opens = true
    · by_cases control : line.control = true
      · rw [exec_bind_ok (exec_discard_ok (exec_init_ready line w usable ⟨opens,control⟩)),
          exec_bind_ok (exec_discard_ok (exec_startUp _)),exec_discard_ok (exec_fini _ (device w.ctx) true rfl)]
        exact .done unset ⟨opens,control⟩
      · have refused : line.control = false := by simpa using control
        rw [exec_bind_error (exec_discard_error (exec_init_notControlled line w usable opens refused))]
        exact .notControlled unset opens refused
    · have refused : line.opens = false := by simpa using opens
      rw [exec_bind_error (exec_discard_error (exec_init_notOpened line w usable must refused))]
      exact .notOpened unset refused

private theorem startup_step (line : Line) (slot : Int32) (w : World) (target : Bytes) (six : w.ctx.SixSlots)
    (resting : Resting target w.ctx) (within : w.ctx.InRange slot) :
    Step (.startup line slot) w (exec (startupMessage line slot) w).1 (exec (startupMessage line slot) w).2 := by
  have inserted : ∀ pos, subscript w.ctx.startupmsg slot pos = w.ctx.startupmsg pos ∨ w.ctx.InRange pos := by
    intro pos
    by_cases same : pos = slot
    · exact .inr (same ▸ within)
    · exact .inl (Function.update_of_ne same ..)
  have read : valueAt (subscript w.ctx.startupmsg slot) slot = valueAt w.ctx.startupmsg slot := by
    simp [valueAt,subscript]
  let base : World := {w with ctx := {w.ctx with startupmsg := subscript w.ctx.startupmsg slot}}
  have ran : exec (startupMessage line slot) w =
      exec (if (valueAt w.ctx.startupmsg slot).length > 0 then deliver line slot (valueAt w.ctx.startupmsg slot)
        else pure ()) base := by
    rw [← read]
    rfl
  rw [ran]
  by_cases some_text : (valueAt w.ctx.startupmsg slot).length > 0
  · rw [if_pos some_text]
    exact .operated line slot _ _ _ _ (if_pos some_text) inserted
      (operate_outcome line _ slot _ [] (fun v => by simp [noting]) base target resting ⟨six.messages,six.msgdisplay⟩)
  · rw [if_neg some_text]
    refine .quiet _ _ (if_neg some_text) (quiet_startups w _ _ _ six ?_)
    intro pos
    rcases inserted pos with same | inside
    · exact .inl same
    · exact .inr (.inl inside)

theorem message_step (host : Host) (args : Args) (w : World) (target : Bytes) (six : w.ctx.SixSlots)
    (resting : Resting target w.ctx) :
    Step (.cli .message host args) w (exec (cmdMessage host args) w).1 (exec (cmdMessage host args) w).2 := by
  unfold cmdMessage
  split
  next few => exact .quiet _ _ (if_pos few) (quiet_print _ w six)
  next enough =>
    refine .operated host.line args.position (args.words.getD 1 []) w.ctx.startupmsg _ _ (if_neg enough)
      (fun _ => .inl rfl) (operate_outcome host.line _ args.position _ [0,1] ?_ w target resting six)
    intro v
    rw [exec_bind_ok (exec_word args 0 _ (argv_zero args (by omega)) v),
      exec_bind_ok (exec_word args 1 _ (argv_words args 1 (by omega)) _)]
    simp [noting,Args.position]

theorem clear_step (host : Host) (args : Args) (w : World) (target : Bytes) (six : w.ctx.SixSlots)
    (resting : Resting target w.ctx) :
    Step (.cli .clear host args) w (exec (cmdClear host args) w).1 (exec (cmdClear host args) w).2 := by
  unfold cmdClear
  split
  next few => exact .quiet _ _ (if_pos few) (quiet_print _ w six)
  next enough =>
    refine .operated host.line args.position [] w.ctx.startupmsg _ _ (if_neg enough)
      (fun _ => .inl rfl) (operate_outcome host.line _ args.position _ [0] ?_ w target resting six)
    intro v
    rw [exec_bind_ok (exec_word args 0 _ (argv_zero args (by omega)) v)]
    rfl

theorem cli_delivery (command : Command) (host : Host) (args : Args) (ctx : LMBCTX) (silent : ¬command.Sends) :
    (Event.cli command host args).delivery ctx = none := by
  cases command <;> first
    | rfl
    | exact absurd (.inl rfl) silent
    | exact absurd (.inr rfl) silent

private theorem event_step (event : Event) (w : World) (target : Bytes) (six : w.ctx.SixSlots) (resting : Resting target w.ctx)
    (later : ∀ line, event ≠ .first line) (within : ∀ line slot, event = .startup line slot → w.ctx.InRange slot) :
    Step event w (exec event.program w).1 (exec event.program w).2 := by
  cases event with
  | first line => exact absurd rfl (later line)
  | startup line slot => exact startup_step line slot w target six resting (within line slot rfl)
  | cli command host args =>
    by_cases sends : command.Sends
    · rcases sends with rfl | rfl
      · exact message_step host args w target six resting
      · exact clear_step host args w target six resting
    · refine .quiet _ _ (cli_delivery command host args w.ctx sends) (quiet_handler command host args sends ?_ ?_ w six)
      · rintro rfl info member
        exact ⟨info,member,rfl⟩
      · rintro rfl passes
        exact ⟨passes,rfl⟩
  | file line wd content =>
    exact .operated line wd (withoutNewlines content) w.ctx.startupmsg _ _ rfl (fun _ => .inl rfl)
      (operate_outcome line _ wd _ [] (fun v => by simp [noting]) w target resting six)

structure Launch where
  values : Translator
  files : FileSystem
  file : Option Tree
  uninitialised : Bool
  ctx : LMBCTX
  level : Level
  loaded : load values files file (mainDefaults uninitialised) = .ok (ctx,level)

/-- A moment between two critical sections of a run that has met no fault. -/
structure Reached extends Launch where
  events : List Event
  history : History ctx.messages events
  world : World
  ran : exec (inSequence (events.map Event.program)) (.start ctx) = (.ok (),world)

def Reached.Next (reached : Reached) (event : Event) : Prop :=
  History reached.ctx.messages (reached.events ++ [event])

structure Started (ctx : LMBCTX) : Prop where
  six : ctx.SixSlots
  sp : ctx.sp = none
  bits : ctx.msgdisplay = List.replicate 6 false
  texts : ∀ pos, ctx.displayedmsgs pos = none
  startups : ∀ pos, ctx.startupmsg pos ≠ none → ctx.InRange pos

theorem Launch.started (launch : Launch) : Started launch.ctx := by
  obtain ⟨tree,_,_,loaded,_⟩ := load_success _ _ _ _ _ _ launch.loaded
  have six : launch.ctx.SixSlots := ⟨loaded.messages,by rw [loaded.msgdisplay]; rfl⟩
  refine ⟨six,loaded.sp,loaded.msgdisplay,fun pos => by rw [loaded.displayedmsgs]; rfl,?_⟩
  intro pos present
  by_contra outside
  apply present
  have missing : pos ∉ slots (mainDefaults launch.uninitialised).messages := fun member =>
    outside ((mem_slots launch.ctx six pos).mp (by rw [six.messages]; exact member))
  rw [loaded.startupmsg,if_neg missing]
  rfl

/-- Between two operations: six slots, and a closed `Serial` object on the first port. -/
structure Alive (target : Bytes) (w : World) : Prop where
  six : w.ctx.SixSlots
  resting : Resting target w.ctx

private theorem first_alive (line : Line) (ctx : LMBCTX) (started : Started ctx) (final : World)
    (outcome : FirstOutcome line (.start ctx) (.ok ()) final) : Alive ctx.port final := by
  cases outcome with
  | done set ready =>
    refine ⟨⟨started.six.messages,started.six.msgdisplay⟩,?_⟩
    change some (Serial.mk (device ctx) false) = some ⟨ctx.port,false⟩
    rw [device,started.sp]

private theorem outcome_alive (line : Line) (pos : Int32) (message : Bytes) (w final : World) (target : Bytes)
    (alive : Alive target w) (outcome : Outcome line pos message w (.ok ()) final) : Alive target final := by
  have named : device w.ctx = target := by rw [device,alive.resting]
  cases outcome with
  | rejected reads ready outside nonzero =>
    exact ⟨⟨alive.six.messages,alive.six.msgdisplay⟩,by subst named; rfl⟩
  | shown reads ready slot =>
    exact ⟨⟨alive.six.messages,(List.length_set ..).trans alive.six.msgdisplay⟩,by subst named; rfl⟩

private theorem step_alive (event : Event) (w final : World) (target : Bytes) (alive : Alive target w)
    (step : Step event w (.ok ()) final) : Alive target final := by
  cases step with
  | quiet _ _ silent quiet => exact ⟨quiet.six,quiet.sp.trans alive.resting⟩
  | operated line pos message startupmsg _ _ sends kept outcome =>
    have base : Alive target {w with ctx := {w.ctx with startupmsg := startupmsg}} :=
      ⟨⟨alive.six.messages,alive.six.msgdisplay⟩,alive.resting⟩
    exact outcome_alive line pos message _ final target base outcome

theorem History.earlier {messages : UInt32} {events : List Event} {event : Event}
    (history : History messages (events ++ [event])) : History messages events := by
  obtain ⟨first,lines,later,serving,before⟩ := history
  exact ⟨first,lines,later,serving,(List.prefix_append events [event]).trans before⟩

theorem History.head {messages : UInt32} {event : Event} (history : History messages [event]) :
    ∃ line, event = .first line := by
  obtain ⟨first,lines,later,serving,rest,same⟩ := history
  exact ⟨first,(List.cons.inj same).1⟩

theorem History.tail {messages : UInt32} {events : List Event} {event : Event}
    (history : History messages (events ++ [event])) (nonempty : events ≠ []) :
    (∀ line, event ≠ .first line) ∧ ∀ line slot, event = .startup line slot → slot ∈ slots messages := by
  obtain ⟨first,lines,later,serving,rest,same⟩ := history
  obtain ⟨head,others,rfl⟩ := List.exists_cons_of_ne_nil nonempty
  have member : event ∈ (slots messages).map (fun slot => Event.startup (lines slot) slot) ++ later := by
    have tail : others ++ [event] ++ rest = (slots messages).map (fun slot => Event.startup (lines slot) slot) ++ later :=
      (List.cons.inj same).2
    rw [← tail]
    simp
  rcases List.mem_append.mp member with booted | served
  · obtain ⟨slot,within,rfl⟩ := List.mem_map.mp booted
    exact ⟨fun _ => by simp,fun line other same => by cases same; exact within⟩
  · have serves := serving event served
    constructor
    · rintro line rfl
      exact serves
    · rintro line slot rfl
      exact serves.elim

/-- A step lemma for the first event and one for the others give a fact about every
moment of every run. -/
theorem run_induction (launch : Launch) (property : List Event → World → Prop)
    (nothing : property [] (.start launch.ctx))
    (first : ∀ line final, FirstOutcome line (.start launch.ctx) (.ok ()) final → property [.first line] final)
    (next : ∀ events event w final, events ≠ [] → property events w → Alive launch.ctx.port w →
      History launch.ctx.messages (events ++ [event]) →
      exec (inSequence (events.map Event.program)) (.start launch.ctx) = (.ok (),w) →
      exec event.program w = (.ok (),final) → Step event w (.ok ()) final → property (events ++ [event]) final)
    (events : List Event) (history : History launch.ctx.messages events) (w : World)
    (ran : exec (inSequence (events.map Event.program)) (.start launch.ctx) = (.ok (),w)) :
    property events w ∧ (events ≠ [] → Alive launch.ctx.port w) := by
  have started := launch.started
  induction events using List.reverseRecOn generalizing w with
  | nil =>
    cases ran
    exact ⟨nothing,fun absurd => (absurd rfl).elim⟩
  | append_singleton events event ih =>
    rw [List.map_append,exec_inSequence_append] at ran
    obtain ⟨_,middle,before,last⟩ := bind_success _ _ _ _ _ ran
    obtain ⟨_,final,one,done⟩ := bind_success _ _ _ _ _ last
    cases done
    obtain ⟨held,alive⟩ := ih history.earlier middle before
    by_cases empty : events = []
    · subst empty
      cases before
      obtain ⟨line,rfl⟩ := history.head
      have outcome := first_outcome line (.start launch.ctx) started.sp
      change exec (firstSequence line) (.start launch.ctx) = _ at one
      rw [one] at outcome
      exact ⟨first line _ outcome,fun _ => first_alive line launch.ctx started _ outcome⟩
    · have here := alive empty
      obtain ⟨later,within⟩ := history.tail empty
      have step := event_step event middle launch.ctx.port here.six here.resting later fun line slot same =>
        (inRange_iff started.six here.six slot).mp ((mem_slots launch.ctx started.six slot).mp (within line slot same))
      rw [one] at step
      exact ⟨next events event middle _ empty held here history before one step,fun _ => step_alive event middle _ _ here step⟩

theorem Reached.alive (reached : Reached) (begun : reached.events ≠ []) : Alive reached.ctx.port reached.world :=
  (run_induction reached.toLaunch (fun _ _ => True) trivial (fun _ _ _ => trivial) (fun _ _ _ _ _ _ _ _ _ _ _ => trivial)
    reached.events reached.history reached.world reached.ran).2 begun

private theorem Reached.at_start (reached : Reached) (empty : reached.events = []) : reached.world = .start reached.ctx := by
  have ran := reached.ran
  rw [empty] at ran
  exact (congrArg Prod.snd ran).symm

theorem Reached.six (reached : Reached) : reached.world.ctx.SixSlots := by
  by_cases empty : reached.events = []
  · rw [reached.at_start empty]
    exact reached.toLaunch.started.six
  · exact (reached.alive empty).six

theorem Reached.next_step (reached : Reached) (event : Event) (next : reached.Next event) :
    (reached.events = [] ∧ reached.world = .start reached.ctx ∧ ∃ line, event = .first line ∧
      FirstOutcome line reached.world (exec event.program reached.world).1 (exec event.program reached.world).2) ∨
    (reached.events ≠ [] ∧ Alive reached.ctx.port reached.world ∧
      Step event reached.world (exec event.program reached.world).1 (exec event.program reached.world).2) := by
  have started := reached.toLaunch.started
  by_cases empty : reached.events = []
  · unfold Reached.Next at next
    rw [empty] at next
    obtain ⟨line,rfl⟩ := next.head
    refine .inl ⟨empty,reached.at_start empty,line,rfl,?_⟩
    rw [reached.at_start empty]
    exact first_outcome line _ started.sp
  · have here := reached.alive empty
    obtain ⟨later,within⟩ := History.tail next empty
    refine .inr ⟨empty,here,event_step event reached.world reached.ctx.port here.six here.resting later ?_⟩
    intro line slot same
    exact (inRange_iff started.six here.six slot).mp ((mem_slots reached.ctx started.six slot).mp (within line slot same))

theorem ran_of_isOk (program : DriverM Unit) (w : World) (ok : (exec program w).1.isOk = true) :
    exec program w = (.ok (),(exec program w).2) := by
  cases h : exec program w with
  | mk result final =>
    rw [h] at ok
    cases result with
    | error kind => cases ok
    | ok value => rfl

def Reached.extend (reached : Reached) (event : Event) (next : reached.Next event)
    (ok : (exec event.program reached.world).1.isOk = true) : Reached where
  toLaunch := reached.toLaunch
  events := reached.events ++ [event]
  history := next
  world := (exec event.program reached.world).2
  ran := by
    rw [List.map_append,exec_inSequence_append,exec_bind_ok reached.ran,List.map_singleton,inSequence,
      exec_bind_ok (ran_of_isOk _ _ ok)]
    rfl

def usualLaunch : Launch where
  values := decimalValues
  files := usualFiles
  file := some fun _ => none
  uninitialised := false
  ctx := _
  level := _
  loaded := rfl

def usualBoot : List Event := boot usualLaunch.ctx.messages .answering fun _ => .answering

def usualReached : Reached where
  toLaunch := usualLaunch
  events := usualBoot
  history := ⟨.answering,fun _ => .answering,[],by simp,⟨[],rfl⟩⟩
  world := (exec (inSequence (usualBoot.map Event.program)) (.start usualLaunch.ctx)).2
  ran := ran_of_isOk _ _ (by decide +kernel)

theorem usualReached_next (event : Event) (serving : event.Serving) : usualReached.Next event :=
  ⟨.answering,fun _ => .answering,[event],by simpa using serving,⟨[],List.append_nil _⟩⟩

end LEDMessageBoard.Daemon
