import LEDMessageBoard.Agreement
import LEDMessageBoard.Clients

/-! The board under the whole daemon: at every moment of every history it shows in each slot
what the last request for it asked for, wherever the request came from. -/
namespace LEDMessageBoard.Requests
open General General.Program General.Stream Config LEDMessageBoard.Frame Escape Driver Encoding Cli Daemon Agreement Semantics

/-- The line of every critical section answers and takes all that is written. -/
def Answering : Event → Prop
  | .first line => line.Answers
  | .startup line _ => line.Answers
  | .cli _ host _ => host.line.Answers
  | .file line _ _ => line.Answers

/-- What a critical section asks of the display. -/
def request (event : Event) (ctx : LMBCTX) : Option (Int32 × Option Bytes) :=
  (event.delivery ctx).map fun given => Operation.request ⟨given.1,given.2.1,given.2.2⟩

def requests : List Event → World → List (Int32 × Option Bytes)
  | [], _ => []
  | event :: rest, w => (request event w.ctx).toList ++ requests rest (exec event.program w).2

private theorem requests_append (first second : List Event) (w middle : World)
    (ran : exec (inSequence (first.map Event.program)) w = (.ok (),middle)) :
    requests (first ++ second) w = requests first w ++ requests second middle := by
  induction first generalizing w with
  | nil =>
    cases ran
    rfl
  | cons event rest ih =>
    obtain ⟨_,after,one,others⟩ := bind_success _ _ _ _ _ ran
    rw [List.cons_append,requests,requests,one,ih after others,List.append_assoc]

private theorem delivery_answers (event : Event) (ctx : LMBCTX) (line : Line) (pos : Int32) (message : Bytes)
    (answering : Answering event) (sends : event.delivery ctx = some (line,pos,message)) : line.Answers := by
  cases event with
  | first other => cases sends
  | startup other slot =>
    obtain ⟨_,given⟩ := Option.ite_none_right_eq_some.mp sends
    cases given
    exact answering
  | file other wd content =>
    cases sends
    exact answering
  | cli command host args =>
    by_cases silent : command.Sends
    · obtain same | same := silent
      all_goals
        subst same
        obtain ⟨_,given⟩ := Option.ite_none_left_eq_some.mp sends
        cases given
        exact answering
    · rw [cli_delivery command host args ctx silent] at sends
      cases sends

def reading (board : Board) (target : Bytes) (w : World) : Board := consume Board.step board (stream target w.wire)

/-- What ties the board to the daemon and to what has been asked for so far. -/
structure Follows (target : Bytes) (board : Board) (asked : List (Int32 × Option Bytes)) (w : World) : Prop where
  linked : Linked target w.ctx (reading board target w)
  shown : ∀ pos, w.ctx.InRange pos → shown w.ctx pos = Display.run (fun _ => none) asked pos
  mask : (∃ change ∈ asked, w.ctx.InRange change.1) → MaskAgrees w.ctx (reading board target w)

section Steps

variable {target : Bytes} {board : Board} {asked : List (Int32 × Option Bytes)} {w : World}

private theorem quiet_follows {ports : Bytes → Prop} {startups : Int32 → Prop} {final : World}
    (follows : Follows target board asked w)
    (quiet : Quiet ports startups w none final) (object : w.ctx.sp ≠ none) : Follows target board asked final := by
  obtain ⟨linked,shows,mask⟩ := follows
  have same_bit (pos : Int32) : slotBit final.ctx pos = slotBit w.ctx pos := by rw [slotBit,slotBit,quiet.msgdisplay]
  have same_board : reading board target final = reading board target w := by rw [reading,reading,quiet.wire]
  have same_device : device final.ctx = device w.ctx := by
    obtain ⟨sp,found⟩ := Option.ne_none_iff_exists'.mp object
    rw [device,device,quiet.sp,found]
  have range (pos : Int32) : final.ctx.InRange pos ↔ w.ctx.InRange pos := inRange_iff quiet.six linked.six pos
  have dark (pos : Int32) (inside : w.ctx.InRange pos) (absent : w.ctx.displayedmsgs pos = none) :
      slotBit w.ctx pos = false := by
    apply Bool.eq_false_iff.mpr
    intro set
    obtain ⟨m,found,_⟩ := (linked.bits pos inside).mp set
    rw [absent] at found
    cases found
  refine ⟨⟨?_,same_device.trans linked.device,quiet.six,?_,?_,?_⟩,?_,?_⟩
  · intro unset
    exact object (quiet.sp.symm.trans unset.1)
  · rw [same_board]
    exact linked.synchronised
  · intro pos inside
    have here := (range pos).mp inside
    rw [same_bit]
    obtain same | ⟨_,absent,emptied⟩ := quiet.displayed pos
    · rw [same]
      exact linked.bits pos here
    · rw [dark pos here absent,emptied]
      simp
  · intro pos inside set
    have here := (range pos).mp inside
    rw [same_bit] at set
    rw [same_board]
    obtain same | ⟨_,absent,_⟩ := quiet.displayed pos
    · rw [same]
      exact linked.texts pos here set
    · rw [dark pos here absent] at set
      cases set
  · intro pos inside
    have here := (range pos).mp inside
    rw [← shows pos here,shown,shown,same_bit]
    obtain same | ⟨_,absent,_⟩ := quiet.displayed pos
    · rw [same]
    · rw [dark pos here absent]
      rfl
  · intro some_request
    obtain ⟨change,member,inside⟩ := some_request
    rw [MaskAgrees,quiet.msgdisplay,same_board]
    exact mask ⟨change,member,(range change.1).mp inside⟩

private theorem greeted_stream (line : Line) (answers : line.Answers) (named : device w.ctx = target) :
    stream target (initiated line w).wire = stream target w.wire ++ [0x54,0x41,0x42,0x43,0x44,0x45] := by
  have chunks : (handshakeChunks line).flatten = [0x54,0x41,0x42,0x43,0x44,0x45] := by
    unfold handshakeChunks
    rw [if_neg answers.reply]
    simp [answers.handshake,transmitted]
  have wire : (initiated line w).wire = w.wire ++ (handshakeChunks line).map fun bytes => ⟨device w.ctx,bytes⟩ := rfl
  rw [wire,named,stream_append,chunks]

private theorem greeted_linked (line : Line) (answers : line.Answers) (linked : Linked target w.ctx (reading board target w))
    {final : World} (wire : final.wire = (initiated line w).wire)
    (ctx : final.ctx = {w.ctx with sp := some ⟨device w.ctx,false⟩}) :
    reading board target final = reading board target w ∧ Linked target final.ctx (reading board target final) := by
  have same : reading board target final = reading board target w := by
    rw [reading,wire,greeted_stream line answers linked.device,consume_append]
    exact Board.consume_handshake _ linked.synchronised
  refine ⟨same,?_⟩
  rw [same,ctx]
  exact ⟨by simp [NoLine],linked.device,⟨linked.six.messages,linked.six.msgdisplay⟩,linked.synchronised,linked.bits,linked.texts⟩

private theorem showing_linked (linked : Linked target w.ctx (reading board target w)) (line : Line) (pos : Int32)
    (message : Bytes)
    (reads : List Nat) (answers : line.Answers) (slot : w.ctx.InRange pos) (resting : Resting target w.ctx) :
    (closed (showing line pos message reads w)).ctx = deliveredCtx w.ctx pos message ∧
      Linked target (deliveredCtx w.ctx pos message) (reading board target (closed (showing line pos message reads w))) ∧
      MaskAgrees (deliveredCtx w.ctx pos message) (reading board target (closed (showing line pos message reads w))) := by
  obtain ⟨after,added,ran,sent,host,delivered,mask,_⟩ :=
    deliver_linked target w _ linked ⟨line,pos,message⟩ answers slot
  have outcome := operate_outcome line (return (pos,message)) pos message [] (fun v => by simp [noting]) w target resting linked.six
  change exec (operate line (return (pos,message))) w = _ at ran
  rw [ran] at outcome
  have same : after.wire = (closed (showing line pos message reads w)).wire ∧
      after.ctx = (closed (showing line pos message reads w)).ctx := by
    cases outcome with
    | rejected _ _ outside => exact absurd slot outside
    | shown => exact ⟨rfl,rfl⟩
  have read : reading board target (closed (showing line pos message reads w)) =
      consume Board.step (reading board target w) added := by
    rw [reading,← same.1,sent,consume_append]
    rfl
  rw [read,← same.2,← host]
  exact ⟨rfl,delivered,mask⟩

private theorem operated_follows (follows : Follows target board asked w) (resting : Resting target w.ctx) (line : Line)
    (pos : Int32)
    (message : Bytes) (answers : line.Answers) {final : World} (outcome : Outcome line pos message w (.ok ()) final) :
    Follows target board (asked ++ [Operation.request ⟨line,pos,message⟩]) final := by
  obtain ⟨linked,shows,mask⟩ := follows
  cases outcome with
  | rejected reads ready outside nonzero =>
    obtain ⟨same,again⟩ := @greeted_linked target board w line answers linked (closed (noting reads (initiated line w))) rfl rfl
    refine ⟨again,?_,?_⟩
    · intro other inside
      have apart : other ≠ pos := fun equal => outside (equal ▸ inside)
      rw [Display.run_snoc,Display.request_other _ (Operation.request ⟨line,pos,message⟩) other apart]
      exact shows other inside
    · intro some_request
      obtain ⟨change,member,inside⟩ := some_request
      rw [same]
      obtain earlier | last := List.mem_append.mp member
      · exact mask ⟨change,earlier,inside⟩
      · rw [List.mem_singleton.mp last] at inside
        exact absurd inside outside
  | shown reads ready slot =>
    obtain ⟨host,again,agrees⟩ := showing_linked linked line pos message reads answers slot resting
    refine ⟨by rw [host]; exact again,?_,?_⟩
    · intro other inside
      have here : w.ctx.InRange other := inside
      rw [host,delivered_shown w.ctx linked.six ⟨line,pos,message⟩ slot other here,Display.run_snoc]
      exact Display.run_congr _ _ [Operation.request ⟨line,pos,message⟩] other (shows other here)
    · intro _
      rw [host]
      exact agrees

end Steps

private theorem first_follows (line : Line) (ctx : LMBCTX) (started : Started ctx) (answers : line.Answers) (board : Board)
    (idle : board.phase = .idle) {final : World} (outcome : FirstOutcome line (.start ctx) (.ok ()) final) :
    Follows ctx.port board [] final := by
  cases outcome with
  | done set ready =>
    have fresh : Fresh ctx := ⟨started.six,fun unset => set unset.2,started.bits,started.texts⟩
    have named : device ctx = ctx.port := by rw [device,started.sp]
    have linked : Linked ctx.port (World.start ctx).ctx (reading board ctx.port (.start ctx)) := by
      rw [← named]
      exact fresh_linked ctx fresh board idle
    obtain ⟨_,again⟩ := @greeted_linked ctx.port board (.start ctx) line answers linked (closed (initiated line (.start ctx))) rfl rfl
    refine ⟨again,?_,?_⟩
    · intro pos _
      have dark := fresh_dark ctx fresh pos
      change (if slotBit ctx pos = true then _ else none) = none
      rw [dark]
      rfl
    · intro some_request
      obtain ⟨change,member,_⟩ := some_request
      cases member

private theorem run_follows (reached : Reached) (begun : reached.events ≠ []) (board : Board) (idle : board.phase = .idle)
    (answering : ∀ event ∈ reached.events, Answering event) :
    Follows reached.ctx.port board (requests reached.events (.start reached.ctx)) reached.world := by
  have started := reached.toLaunch.started
  refine (run_induction reached.toLaunch (fun events w => events ≠ [] → (∀ event ∈ events, Answering event) →
    Follows reached.ctx.port board (requests events (.start reached.ctx)) w) ?_ ?_ ?_ reached.events reached.history
    reached.world reached.ran).1 begun answering
  · intro none
    exact absurd rfl none
  · intro line final outcome _ answering
    exact first_follows line reached.ctx started (answering (.first line) (List.mem_singleton.mpr rfl)) board idle outcome
  · intro events event w final begun ih alive _ ran _ step _ answering
    have follows := ih begun fun other member => answering other (List.mem_append_left _ member)
    have last : requests [event] w = (request event w.ctx).toList := List.append_nil _
    rw [requests_append events [event] _ w ran,last]
    cases step with
    | quiet _ _ silent quiet =>
      have object : w.ctx.sp ≠ none := by
        have resting := alive.resting
        rw [Resting] at resting
        rw [resting]
        exact nofun
      rw [request,silent]
      change Follows _ _ (_ ++ []) _
      rw [List.append_nil]
      exact quiet_follows follows quiet object
    | operated line pos message startupmsg _ _ sends kept outcome =>
      have answers := delivery_answers event w.ctx line pos message (answering event (by simp)) sends
      have base : Follows reached.ctx.port board (requests events (.start reached.ctx))
          {w with ctx := {w.ctx with startupmsg := startupmsg}} := by
        obtain ⟨linked,shows,mask⟩ := follows
        exact ⟨⟨linked.usable,linked.device,⟨linked.six.messages,linked.six.msgdisplay⟩,linked.synchronised,linked.bits,
          linked.texts⟩,shows,mask⟩
      rw [request,sends]
      exact operated_follows base alive.resting line pos message answers outcome

/-- From the first delivery on, the board shows what the requests so far come to. -/
theorem run_shows (reached : Reached) (begun : reached.events ≠ []) (board : Board) (idle : board.phase = .idle)
    (answering : ∀ event ∈ reached.events, Answering event)
    (asked : ∃ change ∈ requests reached.events (.start reached.ctx), reached.world.ctx.InRange change.1) (pos : Int32)
    (inside : reached.world.ctx.InRange pos) :
    Board.shows (reading board reached.ctx.port reached.world) (slotNumber pos) =
      Display.run (fun _ => none) (requests reached.events (.start reached.ctx)) pos := by
  obtain ⟨linked,shows,mask⟩ := run_follows reached begun board idle answering
  rw [linked_shows reached.ctx.port _ _ linked (mask asked) pos inside,shows pos inside]

/-- At any moment of any history with a board that answers: the board and the requests agree
on every slot, once there has been a request for one. -/
theorem board_shows_requests (reached : Reached) (board : Board) (idle : board.phase = .idle)
    (answering : ∀ event ∈ reached.events, Answering event)
    (asked : ∃ change ∈ requests reached.events (.start reached.ctx), reached.ctx.InRange change.1) (pos : Int32)
    (inside : reached.ctx.InRange pos) :
    Board.shows (reading board reached.ctx.port reached.world) (slotNumber pos) =
      Display.run (fun _ => none) (requests reached.events (.start reached.ctx)) pos := by
  have begun : reached.events ≠ [] := by
    intro none
    rw [none] at asked
    obtain ⟨_,member,_⟩ := asked
    cases member
  have range (pos : Int32) : reached.ctx.InRange pos ↔ reached.world.ctx.InRange pos :=
    inRange_iff reached.toLaunch.started.six reached.six pos
  obtain ⟨change,member,within⟩ := asked
  exact run_shows reached begun board idle answering ⟨change,member,(range _).mp within⟩ pos ((range pos).mp inside)

theorem usualReached_answering : ∀ event ∈ usualReached.events, Answering event := by
  intro event member
  obtain first | startup := List.mem_cons.mp member
  · rw [first]
    exact Line.answering_answers
  · obtain ⟨slot,_,same⟩ := List.mem_map.mp startup
    rw [← same]
    exact Line.answering_answers

def shownOnce : Reached :=
  usualReached.extend (.cli .message ⟨usualFiles,[],.answering,true⟩ ⟨text "message",[text "1",text "A"],[]⟩)
    (usualReached_next _ trivial) (by decide +kernel)

theorem board_shows_requests_once :
    Board.shows (reading ⟨.idle,fun _ _ => [],0⟩ shownOnce.ctx.port shownOnce.world) (slotNumber 1) =
      Display.run (fun _ => none) (requests shownOnce.events (.start shownOnce.ctx)) 1 := by
  refine board_shows_requests shownOnce ⟨.idle,fun _ _ => [],0⟩ rfl ?_ (by decide +kernel) 1 (by decide +kernel)
  intro event member
  obtain booted | last := List.mem_append.mp member
  · exact usualReached_answering event booted
  · rw [List.mem_singleton.mp last]
    exact Line.answering_answers

private theorem requests_others (events : List Event) (w : World) (pos : Int32)
    (others : ∀ event ∈ events, ∀ ctx given, event.delivery ctx = some given → given.2.1 ≠ pos) :
    ∀ change ∈ requests events w, pos ≠ change.1 := by
  induction events generalizing w with
  | nil => exact List.forall_mem_nil _
  | cons event rest ih =>
    obtain ⟨first,later⟩ := List.forall_mem_cons.mp others
    intro change member
    obtain here | behind := List.mem_append.mp member
    · obtain ⟨given,sends,same⟩ := Option.map_eq_some_iff.mp (Option.mem_toList.mp here)
      rw [← same]
      exact (first w.ctx given sends).symm
    · exact ih _ later change behind

/-- A slot shows what the last critical section for it asked for. -/
theorem last_event_shown (reached : Reached) (before after : List Event) (event : Event)
    (parts : reached.events = before ++ event :: after) (line : Line) (pos : Int32) (message : Bytes)
    (sends : ∀ ctx, event.delivery ctx = some (line,pos,message)) (inside : reached.ctx.InRange pos)
    (others : ∀ other ∈ after, ∀ ctx given, other.delivery ctx = some given → given.2.1 ≠ pos)
    (answering : ∀ event ∈ reached.events, Answering event) (board : Board) (idle : board.phase = .idle) :
    Board.shows (reading board reached.ctx.port reached.world) (slotNumber pos) =
      if 0 < (trim message).length then some (escape (trim message)) else none := by
  have whole : reached.events = before ++ ([event] ++ after) := parts
  have ran := reached.ran
  rw [whole,List.map_append,exec_inSequence_append] at ran
  obtain ⟨_,middle,front,rest⟩ := bind_success _ _ _ _ _ ran
  rw [List.map_append,exec_inSequence_append] at rest
  obtain ⟨_,next,one,_⟩ := bind_success _ _ _ _ _ rest
  have change : requests [event] middle = [Operation.request ⟨line,pos,message⟩] := by
    rw [requests,request,sends]
    rfl
  have asked : requests reached.events (.start reached.ctx) =
      requests before (.start reached.ctx) ++ [Operation.request ⟨line,pos,message⟩] ++ requests after next := by
    rw [whole,requests_append _ _ _ middle front,requests_append _ _ _ next one,change,List.append_assoc]
  have begun : reached.events ≠ [] := by
    rw [parts]
    simp
  have here : reached.world.ctx.InRange pos := (inRange_iff reached.toLaunch.started.six reached.six pos).mp inside
  have shows := run_shows reached begun board idle answering
    ⟨Operation.request ⟨line,pos,message⟩,by rw [asked]; simp,here⟩ pos here
  rw [asked] at shows
  exact shows.trans (Display.run_last _ _ _ (Operation.request ⟨line,pos,message⟩) (requests_others _ next pos others))

/-- Among clients and files in any order, a slot shows what the last label for it asked for. -/
theorem last_request_shown (reached : Reached) (booted : Clients.Booted reached) (earlier later : List Clients.Label)
    (label : Clients.Label) (server : Clients.Server)
    (run : System.Run Clients.Step (.start reached.world) (earlier ++ label :: later) server) (event : Event)
    (critical : label.events = [event]) (line : Line) (pos : Int32) (message : Bytes)
    (sends : ∀ ctx, event.delivery ctx = some (line,pos,message)) (inside : reached.ctx.InRange pos)
    (others : ∀ other ∈ later.flatMap Clients.Label.events, ∀ ctx given, other.delivery ctx = some given → given.2.1 ≠ pos)
    (answering : ∀ event ∈ reached.events ++ (earlier ++ label :: later).flatMap Clients.Label.events, Answering event)
    (board : Board) (idle : board.phase = .idle) :
    Board.shows (reading board reached.ctx.port server.world) (slotNumber pos) =
      if 0 < (trim message).length then some (escape (trim message)) else none := by
  refine last_event_shown (Clients.served reached booted _ server run) (reached.events ++ earlier.flatMap Clients.Label.events)
    (later.flatMap Clients.Label.events) event ?_ line pos message sends inside others answering board idle
  change reached.events ++ _ = _
  rw [List.flatMap_append,List.flatMap_cons,critical,List.append_assoc]
  rfl

end LEDMessageBoard.Requests
