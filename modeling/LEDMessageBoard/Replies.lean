import LEDMessageBoard.Daemon

/-! What becomes of an `Init` that returns false. No caller looks at the result. -/
namespace LEDMessageBoard.Replies
open General General.Program Config Escape Driver Cli Daemon

/-- If `Init` returns false, nothing is recorded and nothing more is sent, and no NULL
pointer is dereferenced. -/
def HonoursInit (event : Event) (w : World) : Prop :=
  ∀ line, event.initLine w.ctx = some line → (exec (init line) w).1 = .ok false →
    (exec event.program w).2.ctx.displayedmsgs = w.ctx.displayedmsgs ∧
    (exec event.program w).2.ctx.msgdisplay = w.ctx.msgdisplay ∧
    (exec event.program w).2.wire = (exec (init line) w).2.wire ∧
    (exec event.program w).1 ≠ .error .nullSerial

/-- The first sequence has a port to open. A later one that gets no reply is for a
position that the range test stops. -/
def Spared (event : Event) (ctx : LMBCTX) : Prop :=
  match event with
  | .first _ => ctx.port ≠ []
  | event => ∀ line pos message, event.delivery ctx = some (line,pos,message) →
      Line.Ready line → line.reply = [] → ¬ctx.InRange pos ∧ pos ≠ 0

def Happens (start : LMBCTX) (events : List Event) (event : Event) (ctx : LMBCTX) : Prop :=
  ∃ earlier later w, events = earlier ++ event :: later ∧
    exec (inSequence (earlier.map Event.program)) (.start start) = (.ok (),w) ∧ w.ctx = ctx

theorem Happens.append {start : LMBCTX} {events : List Event} {event : Event} {ctx : LMBCTX} (next : Event)
    (happens : Happens start events event ctx) : Happens start (events ++ [next]) event ctx := by
  obtain ⟨earlier,later,w,same,ran,here⟩ := happens
  exact ⟨earlier,later ++ [next],w,by rw [same]; simp,ran,here⟩

theorem Happens.last {start : LMBCTX} {events : List Event} {w : World} (event : Event)
    (ran : exec (inSequence (events.map Event.program)) (.start start) = (.ok (),w)) :
    Happens start (events ++ [event]) event w.ctx := ⟨events,[],w,rfl,ran,rfl⟩

/-- Whatever was asked for, nothing is recorded outside the slots while the daemon lives. -/
theorem run_displayed (reached : Reached) (pos : Int32) (present : reached.world.ctx.displayedmsgs pos ≠ none) :
    reached.world.ctx.InRange pos := by
  have started := reached.toLaunch.started
  refine (run_induction reached.toLaunch (fun _ w => ∀ pos, w.ctx.displayedmsgs pos ≠ none → w.ctx.InRange pos)
    (fun pos present => absurd (started.texts pos) present) ?_ ?_ reached.events reached.history reached.world
    reached.ran).1 pos present
  · intro line final outcome pos present
    cases outcome with
    | done set ready => exact absurd (started.texts pos) present
  · intro events event w final _ held alive _ _ _ step pos present
    cases step with
    | quiet _ _ silent quiet =>
      apply (inRange_iff alive.six quiet.six pos).mp
      rcases quiet.displayed pos with same | ⟨slot,_⟩
      · exact held pos (same ▸ present)
      · exact slot
    | operated line slot message startupmsg _ _ sends kept outcome =>
      cases outcome with
      | rejected reads ready outside nonzero => exact held pos present
      | shown reads ready inside =>
        change Function.update w.ctx.displayedmsgs slot (some (trim message)) pos ≠ none at present
        by_cases same : pos = slot
        · exact same ▸ inside
        · rw [Function.update_of_ne same] at present
          exact held pos present

private theorem init_alive (line : Line) (w : World) (target : Bytes) (alive : Alive target w) :
    (exec (init line) w).1 = .ok false ↔ Line.Ready line ∧ line.reply = [] := by
  have resting := alive.resting
  unfold Resting at resting
  have usable : ¬NoLine w.ctx := by simp [NoLine,resting]
  have must : MustOpen w.ctx := by simp [MustOpen,resting]
  by_cases opens : line.opens = true
  · by_cases control : line.control = true
    · rw [exec_init_ready line w usable ⟨opens,control⟩]
      simp [Line.Ready,opens,control]
    · have refused : line.control = false := by simpa using control
      rw [exec_init_notControlled line w usable opens refused]
      simp [Line.Ready,refused]
  · have refused : line.opens = false := by simpa using opens
    rw [exec_init_notOpened line w usable must refused]
    simp [Line.Ready,refused]

private theorem init_alive_wire (line : Line) (w : World) (target : Bytes) (alive : Alive target w) (ready : Line.Ready line) :
    (exec (init line) w).2.wire = (initiated line w).wire := by
  have resting := alive.resting
  unfold Resting at resting
  rw [exec_init_ready line w (by simp [NoLine,resting]) ready]

private theorem first_honours (line : Line) (w : World) (absent : w.ctx.sp = none) :
    HonoursInit (.first line) w ↔ Spared (.first line) w.ctx := by
  have outcome := first_outcome line w absent
  constructor
  · intro honours unset
    have silent := exec_init_noLine line w ⟨absent,unset⟩
    have kept := (honours line rfl (by rw [silent])).2.2.2
    apply kept
    change (exec (firstSequence line) w).1 = .error .nullSerial
    generalize exec (firstSequence line) w = run at outcome ⊢
    obtain ⟨result,final⟩ := run
    cases outcome with
    | noLine _ => rfl
    | notOpened set _ => exact absurd unset set
    | notControlled set _ _ => exact absurd unset set
    | done set _ => exact absurd unset set
  · intro set other same failed
    cases same
    have usable : ¬NoLine w.ctx := fun none => set none.2
    have must : MustOpen w.ctx := by simp [MustOpen,absent]
    change (exec (firstSequence line) w).2.ctx.displayedmsgs = _ ∧ (exec (firstSequence line) w).2.ctx.msgdisplay = _ ∧
      (exec (firstSequence line) w).2.wire = _ ∧ (exec (firstSequence line) w).1 ≠ _
    generalize exec (firstSequence line) w = run at outcome ⊢
    obtain ⟨result,final⟩ := run
    cases outcome with
    | noLine unset => exact absurd unset set
    | notOpened _ refused =>
      rw [exec_init_notOpened line _ usable must refused] at failed
      cases failed
    | notControlled _ opens refused =>
      rw [exec_init_notControlled line w usable opens refused] at failed
      cases failed
    | done _ ready =>
      rw [exec_init_ready line w usable ready]
      exact ⟨rfl,rfl,rfl,by simp⟩

private theorem outcome_honours (line : Line) (pos : Int32) (message : Bytes) (w final : World) (result : Except Fault Unit)
    (missing : w.ctx.displayedmsgs 0 = none) (ready : Line.Ready line) (outcome : Outcome line pos message w result final) :
    (final.ctx.displayedmsgs = w.ctx.displayedmsgs ∧ final.ctx.msgdisplay = w.ctx.msgdisplay ∧
      final.wire = (initiated line w).wire ∧ result ≠ .error .nullSerial) ↔ ¬w.ctx.InRange pos ∧ pos ≠ 0 := by
  cases outcome with
  | notOpened refused => exact absurd ready.1 (by simp [refused])
  | notControlled opens refused => exact absurd ready.2 (by simp [refused])
  | rejected reads _ outside nonzero => exact ⟨fun _ => ⟨outside,nonzero⟩,fun _ => ⟨rfl,rfl,rfl,by simp⟩⟩
  | zero reads _ is_zero =>
    refine ⟨?_,fun stopped => absurd is_zero stopped.2⟩
    rintro ⟨kept,_⟩
    have entry := congrFun kept 0
    change Function.update w.ctx.displayedmsgs 0 (some (trim message)) 0 = w.ctx.displayedmsgs 0 at entry
    rw [missing,Function.update_self] at entry
    cases entry
  | shown reads _ slot =>
    refine ⟨?_,fun stopped => absurd slot stopped.1⟩
    rintro ⟨_,_,wire,_⟩
    have lengths := congrArg List.length wire
    change ((initiated line w).wire ++ (chunks line pos (trim message) _).map _).length = _ at lengths
    rw [List.length_append,List.length_map,chunks,List.length_append,List.length_singleton] at lengths
    omega

private theorem later_honours (event : Event) (w : World) (target : Bytes) (alive : Alive target w)
    (later : ∀ line, event ≠ .first line) (missing : w.ctx.displayedmsgs 0 = none)
    (step : Step event w (exec event.program w).1 (exec event.program w).2) :
    HonoursInit event w ↔ Spared event w.ctx := by
  have line_of : event.initLine w.ctx = (event.delivery w.ctx).map fun request => request.1 := by
    cases event with
    | first line => exact absurd rfl (later line)
    | _ => rfl
  have spared_of : Spared event w.ctx ↔ ∀ line pos message, event.delivery w.ctx = some (line,pos,message) →
      Line.Ready line → line.reply = [] → ¬w.ctx.InRange pos ∧ pos ≠ 0 := by
    cases event with
    | first line => exact absurd rfl (later line)
    | _ => exact Iff.rfl
  rw [spared_of,HonoursInit,line_of]
  generalize exec event.program w = run at step ⊢
  obtain ⟨result,final⟩ := run
  cases step with
  | quiet _ _ silent quiet =>
    rw [silent]
    exact ⟨fun _ _ _ _ none => (by cases none),fun _ _ none => (by cases none)⟩
  | operated line pos message startupmsg _ _ sends kept outcome =>
    rw [sends]
    have init_false := init_alive line w target alive
    have honour (ready : Line.Ready line) := outcome_honours line pos message
      {w with ctx := {w.ctx with startupmsg := startupmsg}} final result missing ready outcome
    constructor
    · rintro honours _ _ _ same ready silent
      cases same
      have failed := honours line rfl (init_false.mpr ⟨ready,silent⟩)
      rw [init_alive_wire line w target alive ready] at failed
      exact (honour ready).mp failed
    · rintro spared other same failed
      cases same
      obtain ⟨ready,silent⟩ := init_false.mp failed
      rw [init_alive_wire line w target alive ready]
      exact (honour ready).mpr (spared line pos message rfl ready silent)

/-- A slot's text reached the board by an `Init` that got a reply. -/
def AnsweredFor (start : LMBCTX) (events : List Event) (ctx : LMBCTX) (pos : Int32) : Prop :=
  ∃ event before line message, Happens start events event before ∧ event.delivery before = some (line,pos,message) ∧
    line.reply ≠ [] ∧ ctx.displayedmsgs pos = some (trim message)

theorem AnsweredFor.append {start : LMBCTX} {events : List Event} {ctx after : LMBCTX} {pos : Int32} (next : Event)
    (answered : AnsweredFor start events ctx pos) (kept : after.displayedmsgs pos = ctx.displayedmsgs pos) :
    AnsweredFor start (events ++ [next]) after pos := by
  obtain ⟨event,before,line,message,happens,sends,replied,shown⟩ := answered
  exact ⟨event,before,line,message,happens.append next,sends,replied,kept.trans shown⟩

def Listed (ctx : LMBCTX) (pos : Int32) : Prop := ctx.InRange pos ∧ ctx.msgdisplay.getD (bitIndex pos) false = true

private theorem bitIndex_inj (ctx : LMBCTX) (six : ctx.SixSlots) (first second : Int32) (one : ctx.InRange first)
    (two : ctx.InRange second) (same : bitIndex first = bitIndex second) : first = second := by
  have left := (bitIndex_eq ctx six first one).1
  have right := (bitIndex_eq ctx six second two).1
  rw [← Int32.toInt_inj]
  omega

private theorem started_unlisted (ctx : LMBCTX) (started : Started ctx) (pos : Int32) : ¬Listed ctx pos := by
  rintro ⟨_,bit⟩
  rw [started.bits,List.getD_eq_getElem?_getD,List.getElem?_replicate] at bit
  split at bit <;> cases bit

private theorem run_answered (reached : Reached)
    (spared : ∀ event ctx, Happens reached.ctx reached.events event ctx → Spared event ctx) (pos : Int32)
    (listed : Listed reached.world.ctx pos) : AnsweredFor reached.ctx reached.events reached.world.ctx pos := by
  have started := reached.toLaunch.started
  refine (run_induction reached.toLaunch (fun events w =>
    (∀ event ctx, Happens reached.ctx events event ctx → Spared event ctx) →
      ∀ pos, Listed w.ctx pos → AnsweredFor reached.ctx events w.ctx pos)
    ?_ ?_ ?_ reached.events reached.history reached.world reached.ran).1 spared pos listed
  · intro _ pos listed
    exact absurd listed (started_unlisted reached.ctx started pos)
  · intro line final outcome _ pos listed
    cases outcome with
    | done set ready => exact absurd listed (started_unlisted reached.ctx started pos)
  · intro events event w final _ held alive history before _ step all_spared pos listed
    have earlier : ∀ pos, Listed w.ctx pos → AnsweredFor reached.ctx events w.ctx pos :=
      held fun other ctx happens => all_spared other ctx (happens.append event)
    have here : Spared event w.ctx := all_spared event w.ctx (.last event before)
    cases step with
    | quiet _ _ silent quiet =>
      have slot := (inRange_iff alive.six quiet.six pos).mpr listed.1
      have answered := earlier pos ⟨slot,quiet.msgdisplay ▸ listed.2⟩
      apply answered.append event
      obtain ⟨_,_,_,_,_,_,_,shown⟩ := answered
      rcases quiet.displayed pos with same | ⟨_,absent,_⟩
      · exact same
      · rw [absent] at shown
        cases shown
    | operated line slot message startupmsg _ _ sends kept outcome =>
      cases outcome with
      | rejected reads ready outside nonzero => exact (earlier pos listed).append event rfl
      | shown reads ready inside =>
        by_cases same : pos = slot
        · subst same
          refine ⟨event,w.ctx,line,message,.last event before,sends,?_,Function.update_self ..⟩
          intro silent
          cases event with
          | first other => cases sends
          | _ => exact (here line pos message sends ready silent).1 inside
        · have apart : bitIndex slot ≠ bitIndex pos := fun equal =>
            same (bitIndex_inj w.ctx alive.six slot pos inside listed.1 equal).symm
          have bit := listed.2
          change (w.ctx.msgdisplay.set (bitIndex slot) _).getD (bitIndex pos) false = true at bit
          rw [List.getD_eq_getElem?_getD,List.getElem?_set_ne apart,← List.getD_eq_getElem?_getD] at bit
          exact (earlier pos ⟨listed.1,bit⟩).append event (Function.update_of_ne same ..)

/-- Exactly the spared events honour a failed `Init`, from every moment of every run. In
a run of spared events every listed text was answered for. -/
theorem init_honoured (reached : Reached) :
    (∀ event, reached.Next event → (HonoursInit event reached.world ↔ Spared event reached.world.ctx)) ∧
    ((∀ event ctx, Happens reached.ctx reached.events event ctx → Spared event ctx) →
      ∀ pos, Listed reached.world.ctx pos → AnsweredFor reached.ctx reached.events reached.world.ctx pos) := by
  refine ⟨?_,run_answered reached⟩
  intro event next
  have missing : reached.world.ctx.displayedmsgs 0 = none := by
    by_contra present
    exact absurd (run_displayed reached 0 present).1 (by decide)
  rcases reached.next_step event next with ⟨empty,start,line,rfl,_⟩ | ⟨begun,alive,step⟩
  · exact first_honours line reached.world (by rw [start]; exact reached.toLaunch.started.sp)
  · exact later_honours event reached.world _ alive (History.tail next begun).1 missing step

def messageOne (line : Line) : Event :=
  .cli .message ⟨usualFiles,[],line,true⟩ ⟨text "message",[text "1",text "A"],[]⟩

def silentLine : Line := ⟨true,true,[],fun _ => none,fun _ => none⟩

def messageShown : Reached := usualReached.extend (messageOne .answering) (usualReached_next _ trivial) (by decide +kernel)

/-- After `message 1 A` with a board that answers: a file event of a slot that does not
exist is spared, and slot 1 is answered for. -/
theorem init_honoured_shown :
    HonoursInit (.file silentLine 7 (text "B")) messageShown.world ∧
      AnsweredFor messageShown.ctx messageShown.events messageShown.world.ctx 1 := by
  obtain ⟨honoured,answered⟩ := init_honoured messageShown
  refine ⟨(honoured _ ⟨.answering,fun _ => .answering,[messageOne .answering,.file silentLine 7 (text "B")],?_,[],?_⟩).mpr ?_,
    answered ?_ 1 ⟨by decide +kernel,by decide +kernel⟩⟩
  · simp [messageOne,Event.Serving]
  · simp [messageShown,Reached.extend,usualReached,usualBoot]
  · rintro line pos message sends ready silent
    cases sends
    exact ⟨by decide +kernel,by decide⟩
  · rintro event ctx ⟨earlier,later,w,same,ran,rfl⟩
    have member : event ∈ usualBoot ++ [messageOne .answering] := by
      change usualBoot ++ [messageOne .answering] = _ at same
      rw [same]
      simp
    have answering : ∀ line pos message, event.delivery w.ctx = some (line,pos,message) → line.reply ≠ [] := by
      intro line pos message sends
      rcases List.mem_append.mp member with booted | sent
      · rcases List.mem_cons.mp booted with rfl | startup
        · cases sends
        · obtain ⟨slot,_,rfl⟩ := List.mem_map.mp startup
          change (if 0 < (valueAt w.ctx.startupmsg slot).length then some _ else none) = _ at sends
          split at sends
          next =>
            cases sends
            exact Line.answering_answers.reply
          next => cases sends
      · cases List.mem_singleton.mp sent
        cases sends
        exact Line.answering_answers.reply
    cases event with
    | first line =>
      cases earlier with
      | nil =>
        cases ran
        change messageShown.ctx.port ≠ []
        decide +kernel
      | cons head rest =>
        have tail : Event.first line ∈ (slots 6).map (fun slot => Event.startup .answering slot) ++ [messageOne .answering] := by
          have rest_same := (List.cons.inj same).2
          change (slots 6).map _ ++ [messageOne .answering] = _ at rest_same
          rw [rest_same]
          simp
        simp [messageOne] at tail
    | _ => exact fun line pos message sends _ silent => absurd silent (answering line pos message sends)

/-- `message 1 A` after the startup, while no board answers: the text is recorded and
listed although `Init` returned false. -/
theorem silence_ignored :
    ¬HonoursInit (messageOne silentLine) usualReached.world ∧
      Listed (exec (messageOne silentLine).program usualReached.world).2.ctx 1 := by
  refine ⟨?_,by decide +kernel,by decide +kernel⟩
  intro honours
  have alive := usualReached.alive (by simp [usualReached,usualBoot,boot])
  have kept := (honours silentLine rfl ((init_alive silentLine _ _ alive).mpr ⟨⟨rfl,rfl⟩,rfl⟩)).2.1
  exact absurd kept (by decide +kernel)

end LEDMessageBoard.Replies
