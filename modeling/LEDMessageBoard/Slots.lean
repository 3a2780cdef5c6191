import LEDMessageBoard.Daemon

/-! Which positions the daemon takes. The two range tests stop every position outside
the slots but 0. -/
namespace LEDMessageBoard.Slots
open General General.Program Config Escape Driver Cli Daemon

/-- `setMessage` takes the slots and no other position, and a position it does not take
leaves no trace. -/
structure SetMessageExact (line : Line) (pos : Int32) (message : Bytes) (w : World) : Prop where
  takes : (exec (setMessage line pos message) w).1 = .ok true ↔ w.ctx.InRange pos
  rejects : ¬w.ctx.InRange pos → exec (setMessage line pos message) w = (.ok false,w)

structure SetStartupmsgExact (args : Args) (w : World) : Prop where
  takes : w.ctx.InRange args.position → (exec (cmdSetStartupmsg args) w).2.ctx = {w.ctx with
    startupmsg := Function.update w.ctx.startupmsg args.position (some (args.words.getD 1 []))}
  rejects : ¬w.ctx.InRange args.position → (exec (cmdSetStartupmsg args) w).2.ctx = w.ctx ∧
    (exec (cmdSetStartupmsg args) w).2.printed = w.printed ++ [text "Position out of Range"]

def Requests : Event → Int32 → Prop
  | .first _ => fun _ => False
  | .startup _ slot => fun pos => pos = slot
  | .cli .message _ args => fun pos => 2 ≤ args.argc ∧ pos = args.position
  | .cli .clear _ args => fun pos => 1 ≤ args.argc ∧ pos = args.position
  | .cli .setStartupmsg _ args => fun pos => 2 ≤ args.argc ∧ pos = args.position
  | .cli _ _ _ => fun _ => False
  | .file _ wd _ => fun pos => pos = wd

structure Contained (ctx : LMBCTX) : Prop where
  displayed : ∀ pos, ctx.displayedmsgs pos ≠ none → ctx.InRange pos
  startups : ∀ pos, ctx.startupmsg pos ≠ none → ctx.InRange pos

private theorem setMessage_exact (line : Line) (pos : Int32) (message : Bytes) (w : World) (target : Bytes)
    (six : w.ctx.SixSlots) (ready : w.ctx.sp = some ⟨target,true⟩) : SetMessageExact line pos message w ↔ pos ≠ 0 := by
  constructor
  · rintro exact_ rfl
    have outside : ¬w.ctx.InRange 0 := fun slot => absurd slot.1 (by decide)
    have rejected := exact_.rejects outside
    rw [exec_setMessage_zero line w message six] at rejected
    cases rejected
  · intro nonzero
    by_cases slot : w.ctx.InRange pos
    · have taken := exec_setMessage_open line w pos message target six slot ready
      exact ⟨⟨fun _ => slot,fun _ => by rw [taken]⟩,fun outside => absurd slot outside⟩
    · have stopped := exec_setMessage_rejected line w pos message ((guard_iff w.ctx six pos).mpr ⟨slot,nonzero⟩)
      refine ⟨⟨?_,fun inside => absurd inside slot⟩,fun _ => stopped⟩
      rw [stopped]
      intro same
      cases same

private theorem setStartupmsg_exact (args : Args) (enough : 2 ≤ args.argc) (w : World) (six : w.ctx.SixSlots) :
    SetStartupmsgExact args w ↔ args.position ≠ 0 := by
  have run := exec_setStartupmsg args w
  rw [if_neg (by omega)] at run
  constructor
  · intro exact_ zero
    have outside : ¬w.ctx.InRange args.position := by
      rw [zero]
      exact fun slot => absurd slot.1 (by decide)
    have printed := (exact_.rejects outside).2
    rw [run,if_neg (by rw [zero,six.messages]; decide)] at printed
    have last := List.append_cancel_left printed
    simp [text,zero] at last
  · intro nonzero
    by_cases slot : w.ctx.InRange args.position
    · rw [if_neg (fun low => ((guard_iff w.ctx six args.position).mp low).1 slot)] at run
      exact ⟨fun _ => by rw [run],fun outside => absurd slot outside⟩
    · rw [if_pos ((guard_iff w.ctx six args.position).mpr ⟨slot,nonzero⟩)] at run
      exact ⟨fun inside => absurd inside slot,fun _ => by rw [run]; exact ⟨rfl,rfl⟩⟩

private theorem quiet_contained (event : Event) (nonzero : ∀ pos, Requests event pos → pos ≠ 0) (w final : World)
    (kind : Option Fault) (six : w.ctx.SixSlots) (contained : Contained w.ctx)
    (quiet : Quiet event.Ports event.Startups w kind final) : Contained final.ctx := by
  constructor
  · intro pos present
    apply (inRange_iff six quiet.six pos).mp
    rcases quiet.displayed pos with same | ⟨slot,_⟩
    · exact contained.displayed pos (same ▸ present)
    · exact slot
  · intro pos present
    apply (inRange_iff six quiet.six pos).mp
    rcases quiet.startup pos with same | slot | started
    · exact contained.startups pos (same ▸ present)
    · exact slot
    · cases event with
      | cli command host args =>
        cases command with
        | setStartupmsg =>
          obtain ⟨⟨enough,passed⟩,rfl⟩ := started
          by_contra outside
          have stopped := (guard_iff w.ctx six args.position).mpr ⟨outside,nonzero _ ⟨enough,rfl⟩⟩
          rw [six.messages] at stopped
          exact passed stopped
        | _ => exact started.elim
      | _ => exact started.elim

private theorem outcome_contained (line : Line) (pos : Int32) (message : Bytes) (w final : World) (result : Except Fault Unit)
    (nonzero : pos ≠ 0) (contained : Contained w.ctx) (outcome : Outcome line pos message w result final) :
    Contained final.ctx ∧ result ≠ .error .bitsetIndex := by
  cases outcome with
  | notOpened refused => exact ⟨contained,by simp⟩
  | notControlled opens refused => exact ⟨⟨contained.displayed,contained.startups⟩,by simp⟩
  | rejected reads ready outside _ => exact ⟨⟨contained.displayed,contained.startups⟩,by simp⟩
  | zero reads ready is_zero => exact absurd is_zero nonzero
  | shown reads ready slot =>
    refine ⟨⟨?_,contained.startups⟩,by simp⟩
    intro other present
    change Function.update w.ctx.displayedmsgs pos (some (trim message)) other ≠ none at present
    by_cases same : other = pos
    · exact same ▸ slot
    · rw [Function.update_of_ne same] at present
      exact contained.displayed other present

private theorem delivery_requested (event : Event) (ctx : LMBCTX) (line : Line) (pos : Int32) (message : Bytes)
    (sends : event.delivery ctx = some (line,pos,message)) : Requests event pos := by
  cases event with
  | first line => cases sends
  | startup line slot =>
    change (if 0 < (valueAt ctx.startupmsg slot).length then some _ else none) = _ at sends
    split at sends
    next =>
      cases sends
      rfl
    next => cases sends
  | cli command host args =>
    cases command with
    | message =>
      change (if args.argc < 2 then none else some _) = _ at sends
      split at sends
      next => cases sends
      next enough =>
        cases sends
        exact ⟨by omega,rfl⟩
    | clear =>
      change (if args.argc < 1 then none else some _) = _ at sends
      split at sends
      next => cases sends
      next enough =>
        cases sends
        exact ⟨by omega,rfl⟩
    | _ => cases sends
  | file line wd content =>
    cases sends
    rfl

private theorem step_contained (event : Event) (nonzero : ∀ pos, Requests event pos → pos ≠ 0) (w final : World)
    (result : Except Fault Unit) (six : w.ctx.SixSlots) (contained : Contained w.ctx) (step : Step event w result final) :
    Contained final.ctx ∧ result ≠ .error .bitsetIndex := by
  cases step with
  | quiet _ _ silent quiet =>
    refine ⟨quiet_contained event nonzero w final _ six contained quiet,?_⟩
    rintro rfl
    rcases quiet.faults .bitsetIndex rfl with same | same | same <;> cases same
  | operated line pos message startupmsg _ _ sends kept outcome =>
    have base : Contained {w.ctx with startupmsg := startupmsg} := by
      refine ⟨contained.displayed,?_⟩
      intro slot present
      rcases kept slot with same | inside
      · exact contained.startups slot (same ▸ present)
      · exact inside
    exact outcome_contained line pos message _ final result
      (nonzero pos (delivery_requested event w.ctx line pos message sends)) base outcome

private theorem first_contained (line : Line) (w final : World) (result : Except Fault Unit) (contained : Contained w.ctx)
    (outcome : FirstOutcome line w result final) : Contained final.ctx ∧ result ≠ .error .bitsetIndex := by
  cases outcome with
  | noLine unset => exact ⟨contained,by simp⟩
  | notOpened set refused => exact ⟨contained,by simp⟩
  | notControlled set opens refused => exact ⟨⟨contained.displayed,contained.startups⟩,by simp⟩
  | done set ready => exact ⟨⟨contained.displayed,contained.startups⟩,by simp⟩

private theorem run_contained (reached : Reached) (nonzero : ∀ event ∈ reached.events, ∀ pos, Requests event pos → pos ≠ 0) :
    Contained reached.world.ctx := by
  have started := reached.toLaunch.started
  have begun : Contained reached.ctx := ⟨fun pos present => absurd (started.texts pos) present,started.startups⟩
  refine (run_induction reached.toLaunch
    (fun events w => (∀ event ∈ events, ∀ pos, Requests event pos → pos ≠ 0) → Contained w.ctx) (fun _ => begun)
    ?_ ?_ reached.events reached.history reached.world reached.ran).1 nonzero
  · intro line final outcome _
    exact (first_contained line _ final _ begun outcome).1
  · intro events event w final _ held alive _ _ _ step all_nonzero
    exact (step_contained event (all_nonzero event (by simp)) w final _ alive.six
      (held fun other member => all_nonzero other (by simp [member])) step).1

/-- Exactly position 0 breaks the range tests. In every run whose events ask for no
position 0 the entries stay within the slots and no bit outside the bitset is touched. -/
theorem slots_exact (reached : Reached) :
    (∀ line pos message, SetMessageExact line pos message (initiated line reached.world) ↔ pos ≠ 0) ∧
    (∀ args, 2 ≤ args.argc → (SetStartupmsgExact args reached.world ↔ args.position ≠ 0)) ∧
    (∀ event, reached.Next event →
      (∀ other ∈ reached.events ++ [event], ∀ pos, Requests other pos → pos ≠ 0) →
      Contained reached.world.ctx ∧ Contained (exec event.program reached.world).2.ctx ∧
        (exec event.program reached.world).1 ≠ .error .bitsetIndex) := by
  have six := reached.six
  refine ⟨?_,fun args enough => setStartupmsg_exact args enough reached.world six,?_⟩
  · intro line pos message
    exact setMessage_exact line pos message _ _ ⟨six.messages,six.msgdisplay⟩ (initiated_sp line reached.world)
  · intro event next nonzero
    have contained := run_contained reached fun other member => nonzero other (by simp [member])
    refine ⟨contained,?_⟩
    rcases reached.next_step event next with ⟨_,_,line,_,outcome⟩ | ⟨_,alive,step⟩
    · exact first_contained line _ _ _ contained outcome
    · exact step_contained event (nonzero event (by simp)) _ _ _ alive.six contained step

theorem slots_exact_usual :
    SetMessageExact .answering 7 (text "A") (initiated .answering usualReached.world) ∧
    SetStartupmsgExact ⟨text "startupmsg",[text "7",text "A"],[]⟩ usualReached.world ∧
    Contained (exec (Event.file .answering 3 (text "A")).program usualReached.world).2.ctx := by
  obtain ⟨messages,startups,runs⟩ := slots_exact usualReached
  refine ⟨(messages _ _ _).mpr (by decide +kernel),(startups _ (by decide)).mpr (by decide +kernel),
    (runs (.file .answering 3 (text "A")) (usualReached_next _ trivial) ?_).2.1⟩
  intro other member pos requested
  rcases List.mem_append.mp member with booted | served
  · rcases List.mem_cons.mp booted with rfl | startup
    · exact requested.elim
    · obtain ⟨slot,within,rfl⟩ := List.mem_map.mp startup
      cases requested
      have positive : (slots 6).all (· ≠ 0) = true := by decide
      simpa using List.all_eq_true.mp positive pos within
  · cases List.mem_singleton.mp served
    cases requested
    decide

/-- `message 0 A` and `set startupmsg 0 A`, after the startup. -/
theorem zero_taken :
    ¬SetMessageExact .answering (atoi (text "0")) (text "A") (initiated .answering usualReached.world) ∧
    ¬SetStartupmsgExact ⟨text "startupmsg",[text "0",text "A"],[]⟩ usualReached.world := by
  constructor
  · intro exact_
    have stored := exec_setMessage_zero .answering (initiated .answering usualReached.world) (text "A") ⟨rfl,rfl⟩
    have rejected := exact_.rejects (by decide)
    change exec (setMessage .answering 0 (text "A")) _ = _ at rejected
    rw [stored] at rejected
    cases rejected
  · intro exact_
    have untouched := congrArg (fun ctx => ctx.startupmsg 0) (exact_.rejects (by decide)).1
    exact absurd untouched (by decide)

end LEDMessageBoard.Slots
