import LEDMessageBoard.FileChannel
import LEDMessageBoard.Requests

/-! From the file of a slot to the board: the whole way, with the serial line at its end. -/
namespace LEDMessageBoard.SpoolToBoard
open General General.Program Config Driver Cli Daemon FileMonitor FileChannel Agreement Requests Escape

private theorem withoutNewlines_twice (content : Bytes) :
    withoutNewlines (withoutNewlines content) = withoutNewlines content := by
  unfold withoutNewlines
  rw [List.filter_filter]
  simp

/-- The lines that the steps of the channel meet answer. -/
def AnsweringAction : Action → Prop
  | .pass line => line.Answers
  | .cli _ host _ => host.line.Answers
  | _ => True

/-- Not a request of a client for the slot. -/
def Elsewhere (slot : Int32) : Action → Prop
  | .cli command host args => ∀ ctx given, (Event.cli command host args).delivery ctx = some given → given.2.1 ≠ slot
  | _ => True

/-- The channel has gone through these critical sections, and the last one for the slot gave it
what the monitor passed last. -/
structure Traced (start : World) (slot : Int32) (events : List Event) (c : Channel) : Prop where
  serving : ∀ event ∈ events, event.Serving
  answering : ∀ event ∈ events, Answering event
  ran : exec (inSequence (events.map Event.program)) start = (.ok (),c.world)
  clean : ∀ event message, c.monitor = .passing event message → withoutNewlines message = message
  last : ∀ message, c.passed slot = some message → withoutNewlines message = message ∧
    ∃ before line after, events = before ++ .file line slot message :: after ∧
      ∀ other ∈ after, ∀ ctx given, other.delivery ctx = some given → given.2.1 ≠ slot

section Steps

variable {monpath : Bytes} {start : World} {slot : Int32} {events : List Event} {c last : Channel}

/-- A step that leaves the world, and what was passed, as they are. -/
theorem Traced.kept (traced : Traced start slot events c) (world : last.world = c.world) (passed : last.passed = c.passed)
    (clean : ∀ event message, last.monitor = .passing event message → withoutNewlines message = message) :
    Traced start slot events last := by
  obtain ⟨serving,answering,ran,_,before⟩ := traced
  refine ⟨serving,answering,by rw [world]; exact ran,clean,?_⟩
  rw [passed]
  exact before

theorem Traced.extended (traced : Traced start slot events c) (event : Event) (serves : event.Serving)
    (answers : Answering event) (ran : exec event.program c.world = (.ok (),last.world))
    (clean : ∀ event message, last.monitor = .passing event message → withoutNewlines message = message)
    (newest : ∀ message, last.passed slot = some message → withoutNewlines message = message ∧
      ((∃ line, event = .file line slot message) ∨ c.passed slot = some message ∧
        ∀ ctx given, event.delivery ctx = some given → given.2.1 ≠ slot)) :
    Traced start slot (events ++ [event]) last := by
  obtain ⟨serving,answering,earlier,_,before⟩ := traced
  refine ⟨?_,?_,?_,clean,?_⟩
  · intro other member
    obtain inside | single := List.mem_append.mp member
    · exact serving other inside
    · rw [List.mem_singleton.mp single]
      exact serves
  · intro other member
    obtain inside | single := List.mem_append.mp member
    · exact answering other inside
    · rw [List.mem_singleton.mp single]
      exact answers
  · rw [List.map_append,exec_inSequence_append,exec_bind_ok earlier,List.map_singleton,inSequence,exec_bind_ok ran]
    rfl
  · intro message given
    obtain ⟨plain,file | ⟨old,elsewhere⟩⟩ := newest message given
    · obtain ⟨line,same⟩ := file
      exact ⟨plain,events,line,[],by rw [same],List.forall_mem_nil _⟩
    · obtain ⟨_,front,line,after,parts,others⟩ := before message old
      refine ⟨plain,front,line,after ++ [event],by rw [parts,List.append_assoc,List.cons_append],?_⟩
      intro other member
      obtain inside | single := List.mem_append.mp member
      · exact others other inside
      · rw [List.mem_singleton.mp single]
        exact elsewhere

private theorem step_traced (traced : Traced start slot events c) {action : Action} (step : Step monpath c action last)
    (answers : AnsweringAction action) (elsewhere : Elsewhere slot action) : ∃ more, Traced start slot (events ++ more) last := by
  have still (world : last.world = c.world) (passed : last.passed = c.passed)
      (clean : ∀ event message, last.monitor = .passing event message → withoutNewlines message = message) :
      ∃ more, Traced start slot (events ++ more) last := by
    refine ⟨[],?_⟩
    rw [List.append_nil]
    exact traced.kept world passed clean
  cases step with
  | openTruncate own within => exact still rfl rfl traced.clean
  | write i chunk writer is_open => exact still rfl rfl traced.clean
  | close i merged writer is_open => exact still rfl rfl traced.clean
  | kernelRead events read rest waits drained some_record batch onward => exact still rfl rfl nofun
  | pop events event inotify waits popped => exact still rfl rfl nofun
  | readPiece event sofar count reads more => exact still rfl rfl nofun
  | endOfFile event sofar reads done =>
    apply still rfl rfl
    intro other message has
    cases has
    exact withoutNewlines_twice sofar
  | pass event message line world has ran =>
    have plain := traced.clean event message has
    refine ⟨[.file line event.wd message],traced.extended _ trivial answers ?_ nofun ?_⟩
    · change exec (deliver line event.wd (withoutNewlines message)) c.world = _
      rw [plain]
      exact ran
    · intro newest given
      by_cases same : slot = event.wd
      · subst same
        have equal : message = newest := by simpa using given
        subst equal
        exact ⟨plain,.inl ⟨line,rfl⟩⟩
      · have old : c.passed slot = some newest := by simpa [same] using given
        refine ⟨(traced.last newest old).1,.inr ⟨old,?_⟩⟩
        intro ctx sent sends
        cases sends
        exact Ne.symm same
  | cli command host args world ran =>
    refine ⟨[.cli command host args],traced.extended _ trivial answers ran traced.clean ?_⟩
    intro newest given
    exact ⟨(traced.last newest given).1,.inr ⟨given,elsewhere⟩⟩

private theorem run_traced {initial : Channel} (nothing : initial.passed slot = none) (waits : initial.monitor = .waiting [])
    {actions : List Action} (run : System.Run (Step monpath) initial actions c)
    (answers : ∀ action ∈ actions, AnsweringAction action) (elsewhere : ∀ action ∈ actions, Elsewhere slot action) :
    ∃ events, Traced initial.world slot events c := by
  induction run with
  | start =>
    refine ⟨[],List.forall_mem_nil _,List.forall_mem_nil _,rfl,?_,?_⟩
    · intro event message has
      rw [waits] at has
      cases has
    · intro message given
      rw [nothing] at given
      cases given
  | @next actions middle last action run step ih =>
    obtain ⟨events,traced⟩ := ih (fun other member => answers other (List.mem_append_left _ member))
      (fun other member => elsewhere other (List.mem_append_left _ member))
    obtain ⟨more,after⟩ := step_traced traced step (answers action (by simp)) (elsewhere action (by simp))
    exact ⟨events ++ more,after⟩

end Steps

/-- Writers, the monitor and clients run in any order. Once the file of a slot has been closed
and nothing is under way for it any more, the board shows the content of the file, unless a
client has asked for that slot too. -/
theorem spool_shown (reached : Reached) (booted : Clients.Booted reached) (monpath : Bytes) (initial : Channel)
    (watching : Watching monpath initial) (starts : initial.world = reached.world) (slot : Int32)
    (nothing : initial.passed slot = none) (actions : List Action) (c : Channel)
    (run : System.Run (Step monpath) initial actions c) (within : slot ∈ slots 6) (written : c.written slot = true)
    (closed : ¬c.Open slot) (settled : ¬c.Pending slot) (idle : ¬c.monitor.Handles slot)
    (elsewhere : ∀ action ∈ actions, Elsewhere slot action) (answering : ∀ event ∈ reached.events, Answering event)
    (answers : ∀ action ∈ actions, AnsweringAction action) (board : Board) (listening : board.phase = .idle) :
    Board.shows (reading board reached.ctx.port c.world) (slotNumber slot) =
      if 0 < (trim (withoutNewlines (c.contents (messageFile monpath slot)))).length then
        some (escape (trim (withoutNewlines (c.contents (messageFile monpath slot))))) else none := by
  have passed : c.passed slot = some (withoutNewlines (c.contents (messageFile monpath slot))) := by
    obtain open_still | pending | handled | arrived := (run_invariant monpath initial watching actions run).settles slot within written
    · exact absurd open_still closed
    · exact absurd pending settled
    · exact absurd handled.1 idle
    · exact arrived.2
  obtain ⟨events,serving,served,ran,_,last⟩ := run_traced nothing watching.monitor run answers elsewhere
  obtain ⟨plain,before,line,after,parts,others⟩ := last _ passed
  rw [starts] at ran
  have inside : reached.ctx.InRange slot := by
    rw [← mem_slots reached.ctx reached.toLaunch.started.six,reached.toLaunch.started.six.messages]
    exact within
  have all : ∀ event ∈ (Clients.serve reached booted events serving c.world ran).events, Answering event := by
    intro event member
    obtain booted | later := List.mem_append.mp member
    · exact answering event booted
    · exact served event later
  refine last_event_shown (Clients.serve reached booted events serving c.world ran) (reached.events ++ before) after
    (.file line slot (withoutNewlines (c.contents (messageFile monpath slot)))) ?_ line slot _ ?_ inside others all board listening
  · change reached.events ++ events = _
    rw [parts,List.append_assoc]
  · intro ctx
    change some (line,slot,_) = _
    rw [plain]

/-- `echo A > message-1`, up to the board. -/
theorem spool_shown_once : ∃ c,
    System.Run (Step spool) usualChannel [.openTruncate 1,.write 0 [0x41,0x0A],.close 0 false,
      .kernelRead ⟨[],[closeRecord 1],fun _ => false,6⟩,.pop,.readPiece 7,.endOfFile,.pass .answering] c ∧
    Board.shows (reading ⟨.idle,fun _ _ => [],0⟩ usualReached.ctx.port c.world) 1 = some [0x41] := by
  have opened := (.start : System.Run (Step spool) usualChannel [] _).next (.openTruncate 1 (by decide))
  dsimp only [usualChannel,Channel.idle] at opened
  have written := opened.next (.write 0 [0x41,0x0A] ⟨1,0⟩ rfl)
  dsimp only at written
  have closed := written.next (.close 0 false ⟨1,2⟩ rfl)
  dsimp only at closed
  have onward : (5 : Int) ≤ 6 := by decide
  have read := closed.next (.kernelRead [] ⟨[],[closeRecord 1],fun _ => false,6⟩ [] rfl rfl (by simp) rfl onward)
  dsimp only at read
  have popped := read.next (.pop _ ⟨1,8,messageFile spool 1⟩ _ rfl rfl)
  dsimp only at popped
  have pieced := popped.next (.readPiece _ [] 7 rfl (by rw [Function.update_self]; decide))
  dsimp only at pieced
  have ended := pieced.next (.endOfFile _ _ rfl (by rw [Function.update_self]; decide))
  dsimp only at ended
  have passed := ended.next (.pass _ _ .answering _ rfl (ran_of_isOk _ _ (by decide +kernel)))
  refine ⟨_,passed,?_⟩
  have shows := spool_shown usualReached Clients.usualReached_booted spool usualChannel usualChannel_watching rfl 1 rfl _ _ passed
    (by decide) rfl (by decide) (by decide) (fun handles => handles) (by simp [Elsewhere]) usualReached_answering
    (by simpa [AnsweringAction] using Line.answering_answers) ⟨.idle,fun _ _ => [],0⟩ rfl
  refine shows.trans ?_
  simp only [Function.update_self]
  decide

end LEDMessageBoard.SpoolToBoard
