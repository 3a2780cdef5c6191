import LEDMessageBoard.Cli
import LEDMessageBoard.Operations

/-! What the command handlers do to the world. All but `message` and `clear` leave the
board alone. -/
namespace LEDMessageBoard.Cli
open General General.Program Config Driver

/-- A step that does not touch the serial line or what is displayed. `ports` and
`startups` say which ports and which startup messages it may set. -/
structure Quiet (ports : Bytes → Prop) (startups : Int32 → Prop) (before : World) (fault : Option Fault) (after : World) :
    Prop where
  six : after.ctx.SixSlots
  wire : after.wire = before.wire
  sp : after.ctx.sp = before.ctx.sp
  msgdisplay : after.ctx.msgdisplay = before.ctx.msgdisplay
  displayed : ∀ pos, after.ctx.displayedmsgs pos = before.ctx.displayedmsgs pos ∨
    before.ctx.InRange pos ∧ before.ctx.displayedmsgs pos = none ∧ after.ctx.displayedmsgs pos = some []
  port : after.ctx.port = before.ctx.port ∨ ports after.ctx.port
  startup : ∀ pos, after.ctx.startupmsg pos = before.ctx.startupmsg pos ∨ before.ctx.InRange pos ∨ startups pos
  logpath : before.ctx.logpath ≠ [] → after.ctx.logpath ≠ []
  faults : ∀ kind, fault = some kind → kind = .nullArgument ∨ kind = .filesystem ∨ kind = .configWrite

def Quietly (ports : Bytes → Prop) (startups : Int32 → Prop) (before : World) (fault : Option Fault) (after : World) : Prop :=
  before.ctx.SixSlots → Quiet ports startups before fault after

variable {ports : Bytes → Prop} {startups : Int32 → Prop}

theorem inRange_iff {first second : LMBCTX} (six : first.SixSlots) (other : second.SixSlots) (pos : Int32) :
    first.InRange pos ↔ second.InRange pos := by
  rw [LMBCTX.InRange,LMBCTX.InRange,six.messages,other.messages]

/-- A step that leaves the context and the wire as they are is quiet, whatever it prints
or reads, if its fault is one that a handler may raise. -/
theorem quiet_still (before after : World) (fault : Option Fault) (ctx : after.ctx = before.ctx)
    (wire : after.wire = before.wire)
    (harmless : ∀ kind, fault = some kind → kind = .nullArgument ∨ kind = .filesystem ∨ kind = .configWrite) :
    Quietly ports startups before fault after := by
  intro six
  refine ⟨ctx ▸ six,wire,by rw [ctx],by rw [ctx],?_,?_,?_,?_,harmless⟩
  · exact fun pos => .inl (by rw [ctx])
  · exact .inl (by rw [ctx])
  · exact fun pos => .inl (by rw [ctx])
  · exact fun set => by rwa [ctx]

private theorem quiet_refl (w : World) (six : w.ctx.SixSlots) : Quiet ports startups w none w :=
  quiet_still w w none rfl rfl (fun _ none => by cases none) six

theorem quietly_composes : Composes (Quietly ports startups) := by
  refine ⟨fun w six => quiet_refl w six,?_⟩
  intro a b f c first second six
  have head := first six
  have tail := second head.six
  refine ⟨tail.six,tail.wire.trans head.wire,tail.sp.trans head.sp,tail.msgdisplay.trans head.msgdisplay,?_,?_,?_,
    fun present => tail.logpath (head.logpath present),tail.faults⟩
  · intro pos
    rcases tail.displayed pos with same | ⟨slot,absent,inserted⟩
    · rw [same]
      exact head.displayed pos
    · have slot_before := (inRange_iff head.six six pos).mp slot
      rcases head.displayed pos with same | ⟨_,_,earlier⟩
      · exact .inr ⟨slot_before,same ▸ absent,inserted⟩
      · rw [earlier] at absent
        cases absent
  · rcases tail.port with same | listed
    · rw [same]
      exact head.port
    · exact .inr listed
  · intro pos
    rcases tail.startup pos with same | slot | requested
    · rw [same]
      exact head.startup pos
    · exact .inr (.inl ((inRange_iff head.six six pos).mp slot))
    · exact .inr (.inr requested)

private theorem quiet_aside (w : World) (printed : List Bytes) (reads : List Nat) :
    Quietly ports startups w none {w with printed := printed,reads := reads} :=
  quiet_still w _ none rfl rfl (fun _ none => by cases none)

private theorem quiet_fault (w : World) (kind : Fault)
    (harmless : kind = .nullArgument ∨ kind = .filesystem ∨ kind = .configWrite) :
    Quietly ports startups w (some kind) w := by
  apply quiet_still w w (some kind) rfl rfl
  intro _ same
  cases same
  exact harmless

/-- A step that only sets startup messages. -/
theorem quiet_startups (w : World) (startupmsg : Int32 → Option Bytes) (printed : List Bytes) (reads : List Nat)
    (six : w.ctx.SixSlots)
    (changes : ∀ pos, startupmsg pos = w.ctx.startupmsg pos ∨ w.ctx.InRange pos ∨ startups pos) :
    Quiet ports startups w none
      {w with ctx := {w.ctx with startupmsg := startupmsg},printed := printed,reads := reads} :=
  ⟨⟨six.messages,six.msgdisplay⟩,rfl,rfl,rfl,fun _ => .inl rfl,.inl rfl,changes,id,fun _ none => by cases none⟩

theorem quiet_print (line : Bytes) (w : World) : Leads (Quietly ports startups) (cliPrint line) w :=
  .of_exec rfl (quiet_aside w _ _)

theorem exec_argument (args : Args) (index : Nat) (w : World) :
    exec (argument args index) w = (.ok (args.argv index),noting [index] w) := rfl

private theorem quiet_argument (args : Args) (index : Nat) (w : World) :
    Leads (Quietly ports startups) (argument args index) w :=
  .of_exec (exec_argument args index w) (quiet_aside w _ _)

theorem exec_word (args : Args) (index : Nat) (value : Bytes) (present : args.argv index = some value) (w : World) :
    exec (word args index) w = (.ok value,noting [index] w) := by
  rw [word,exec_bind_ok (exec_argument args index w),present]
  rfl

theorem exec_word_null (args : Args) (index : Nat) (absent : args.argv index = none) (w : World) :
    exec (word args index) w = (.error .nullArgument,noting [index] w) := by
  rw [word,exec_bind_ok (exec_argument args index w),absent]
  rfl

private theorem quiet_word (args : Args) (index : Nat) (w : World) : Leads (Quietly ports startups) (word args index) w := by
  apply Leads.bind quietly_composes (quiet_argument args index w)
  intro value middle _
  cases value with
  | none => exact quiet_fault middle .nullArgument (.inl rfl)
  | some value => exact .pure quietly_composes value middle

private theorem quiet_save (host : Host) (w : World) : Leads (Quietly ports startups) (cmdSave host) w := by
  apply Leads.bind quietly_composes
  · apply Leads.of_exec (exec_updateCtx _ w)
    intro six
    apply quiet_startups w _ _ _ six
    intro pos
    by_cases slot : w.ctx.InRange pos
    · exact .inr (.inl slot)
    · left
      have outside : pos ∉ slots w.ctx.messages := fun member => slot ((mem_slots w.ctx six pos).mp member)
      exact (foldl_update (fun _ value => some (value.getD [])) _ (fun _ _ => rfl) _ pos).trans (if_neg outside)
  · intro _ middle _
    split
    next => exact quiet_print _ middle
    next => exact quiet_fault middle .configWrite (.inr (.inr rfl))

private theorem quiet_showPorts (host : Host) (args : Args) (w : World) :
    Leads (Quietly ports startups) (cmdShowPorts host args) w := by
  apply Leads.bind quietly_composes (quiet_print _ w)
  intro _ w _
  apply Leads.bind quietly_composes (quiet_print _ w)
  intro _ w _
  apply Leads.bind quietly_composes
  · apply Leads.inSequence quietly_composes
    intro program member state
    obtain ⟨index,_,rfl⟩ := List.mem_map.mp member
    apply Leads.bind quietly_composes (quiet_argument args index state)
    intro _ middle _
    exact quiet_print _ middle
  · intro _ w _
    apply Leads.inSequence quietly_composes
    intro program member state
    obtain ⟨info,_,rfl⟩ := List.mem_map.mp member
    exact quiet_print _ state

theorem readBit_inRange (w : World) (six : w.ctx.SixSlots) (slot : Int32) (inside : w.ctx.InRange slot) :
    exec (readBit slot) w = (.ok (w.ctx.msgdisplay.getD (bitIndex slot) false),w) := by
  have bound : bitIndex slot < w.ctx.msgdisplay.length := by
    rw [six.msgdisplay]
    exact (bitIndex_eq w.ctx six slot inside).2
  simp [readBit,exec_bind,List.getElem?_eq_getElem bound]

private theorem quiet_showMessage (slot : Int32) (within : slot ∈ slots 6) (w : World) :
    Leads (Quietly ports startups) (showMessage slot) w := by
  intro six
  have inside : w.ctx.InRange slot := (mem_slots w.ctx six slot).mp (six.messages ▸ within)
  unfold showMessage
  rw [exec_bind_ok (readBit_inRange w six slot inside)]
  cases w.ctx.msgdisplay.getD (bitIndex slot) false with
  | false => exact quiet_refl w six
  | true =>
    refine ⟨⟨six.messages,six.msgdisplay⟩,rfl,rfl,rfl,?_,.inl rfl,fun _ => .inl rfl,id,fun _ none => by cases none⟩
    intro pos
    change subscript w.ctx.displayedmsgs slot pos = w.ctx.displayedmsgs pos ∨
      _ ∧ _ ∧ subscript w.ctx.displayedmsgs slot pos = some []
    by_cases same : pos = slot
    · subst same
      cases entry : w.ctx.displayedmsgs pos with
      | none => exact .inr ⟨inside,rfl,by simp [subscript,entry]⟩
      | some value => exact .inl (by simp [subscript,entry])
    · exact .inl (Function.update_of_ne same ..)

private theorem quiet_showMessages (w : World) : Leads (Quietly ports startups) cmdShowMessages w := by
  intro six
  change Quiet ports startups w (fault (exec (inSequence ((slots w.ctx.messages).map showMessage)) w).1) _
  refine Leads.inSequence quietly_composes _ ?_ w six
  intro program member state
  obtain ⟨slot,within,rfl⟩ := List.mem_map.mp member
  exact quiet_showMessage slot (six.messages ▸ within) state

private theorem quiet_showStartupmsg (slot : Int32) (within : slot ∈ slots 6) (w : World) :
    Leads (Quietly ports startups) (showStartupmsg slot) w := by
  apply Leads.bind quietly_composes
  · apply Leads.of_exec (exec_updateCtx _ w)
    intro six
    apply quiet_startups w _ _ _ six
    intro pos
    by_cases same : pos = slot
    · subst same
      exact .inr (.inl ((mem_slots w.ctx six pos).mp (six.messages ▸ within)))
    · exact .inl (Function.update_of_ne same ..)
  · intro _ middle _
    apply Leads.get_bind
    dsimp only
    split
    next => exact quiet_print _ middle
    next => exact .pure quietly_composes _ middle

private theorem quiet_showStartupmsgs (w : World) : Leads (Quietly ports startups) cmdShowStartupmsgs w := by
  intro six
  change Quiet ports startups w (fault (exec (inSequence ((slots w.ctx.messages).map showStartupmsg)) w).1) _
  refine Leads.inSequence quietly_composes _ ?_ w six
  intro program member state
  obtain ⟨slot,within,rfl⟩ := List.mem_map.mp member
  exact quiet_showStartupmsg slot (six.messages ▸ within) state

private theorem quiet_setListedPort (args : Args) (infos : List PortInfo) (listed : ∀ info ∈ infos, ports info.port)
    (w : World) :
    Leads (Quietly ports startups) (setListedPort args infos) w := by
  induction infos generalizing w with
  | nil =>
    apply Leads.bind quietly_composes (quiet_argument args 1 w)
    intro _ middle _
    exact quiet_print _ middle
  | cons info rest ih =>
    apply Leads.bind quietly_composes (quiet_word args 0 w)
    intro wanted middle _
    split
    next =>
      apply Leads.bind quietly_composes (quiet_print _ middle)
      intro _ w _
      apply Leads.of_exec (exec_updateCtx _ w)
      intro six
      exact ⟨⟨six.messages,six.msgdisplay⟩,rfl,rfl,rfl,fun _ => .inl rfl,.inr (listed info (by simp)),
        fun _ => .inl rfl,id,fun _ none => by cases none⟩
    next => exact ih (fun other member => listed other (by simp [member])) middle

private theorem quiet_setPort (host : Host) (args : Args) (listed : ∀ info ∈ host.ports, ports info.port) (w : World) :
    Leads (Quietly ports startups) (cmdSetPort host args) w := by
  apply Leads.bind quietly_composes (quiet_word args 0 w)
  intro value middle _
  split
  next => exact quiet_print _ middle
  next =>
    apply Leads.bind quietly_composes (quiet_argument args 0 middle).discard
    intro _ w _
    exact quiet_setListedPort args host.ports listed w

private theorem quiet_setDirectory (host : Host) (args : Args) (usage label : Bytes) (assign : Bytes → LMBCTX → LMBCTX)
    (assigned : ∀ value w, args.argv 0 = some value → host.files.kind value = .directory →
      Quietly ports startups w none {w with ctx := assign value w.ctx}) (w : World) :
    Leads (Quietly ports startups) (setDirectory host args usage label assign) w := by
  unfold setDirectory
  split
  next => exact quiet_print _ w
  next =>
    apply Leads.bind quietly_composes (quiet_word args 0 w)
    intro dir middle read
    cases found : args.argv 0 with
    | none =>
      rw [exec_word_null args 0 found w] at read
      cases read
    | some value =>
      rw [exec_word args 0 value found w] at read
      cases read
      split
      next => exact quiet_fault _ .filesystem (.inr (.inl rfl))
      next =>
        apply Leads.bind quietly_composes (quiet_argument args 0 _)
        intro _ w _
        exact quiet_print _ w
      next =>
        apply Leads.bind quietly_composes (quiet_argument args 0 _)
        intro _ w _
        exact quiet_print _ w
      next is_directory =>
        apply Leads.bind quietly_composes (quiet_word args 0 _)
        intro value _ again
        rw [exec_word args 0 dir found _] at again
        cases again
        apply Leads.bind quietly_composes (.of_exec (exec_updateCtx _ _) (assigned dir _ found is_directory))
        intro _ w _
        apply Leads.bind quietly_composes (quiet_argument args 0 _)
        intro _ w _
        exact quiet_print _ w

private theorem quiet_setLogfiledir (host : Host) (args : Args) (w : World) :
    Leads (Quietly ports startups) (cmdSetLogfiledir host args) w := by
  apply quiet_setDirectory
  intro value w _ is_directory six
  refine ⟨⟨six.messages,six.msgdisplay⟩,rfl,rfl,rfl,fun _ => .inl rfl,.inl rfl,fun _ => .inl rfl,?_,
    fun _ none => by cases none⟩
  intro _ empty
  change value = [] at empty
  rw [empty,host.files.empty_missing] at is_directory
  contradiction

private theorem quiet_setMonitorpath (host : Host) (args : Args) (w : World) :
    Leads (Quietly ports startups) (cmdSetMonitorpath host args) w := by
  apply quiet_setDirectory
  intro value w _ _ six
  exact ⟨⟨six.messages,six.msgdisplay⟩,rfl,rfl,rfl,fun _ => .inl rfl,.inl rfl,fun _ => .inl rfl,id,
    fun _ none => by cases none⟩

/-- The position that `set startupmsg` and its relatives read. -/
def Args.position (args : Args) : Int32 := atoi (args.words.headD [])

theorem argv_words (args : Args) (index : Nat) (inside : index < args.argc) :
    args.argv index = some (args.words.getD index []) := by
  unfold Args.argc at inside
  simp [Args.argv,List.getElem?_append_left inside,List.getElem?_eq_getElem inside]

theorem argv_zero (args : Args) (inside : 0 < args.argc) : args.argv 0 = some (args.words.headD []) := by
  rw [argv_words args 0 inside]
  cases words : args.words with
  | nil => rfl
  | cons first rest => rfl

theorem exec_setStartupmsg (args : Args) (w : World) :
    exec (cmdSetStartupmsg args) w =
      if args.argc < 2 then (.ok (),{w with printed := w.printed ++ [text "usage: set startupmsg <pos> <message>"]})
      else if w.ctx.messages < args.position.toUInt32 then
        (.ok (),{w with printed := w.printed ++ [text "Position out of Range"],reads := w.reads ++ [0]})
      else (.ok (),{w with
        ctx := {w.ctx with
          startupmsg := Function.update w.ctx.startupmsg args.position (some (args.words.getD 1 []))}
        printed := w.printed ++ [text "Startup Message " ++ shownInt args.position.toInt ++ text " set to " ++
          args.words.getD 1 []]
        reads := w.reads ++ [0,1,0,0,1]}) := by
  unfold cmdSetStartupmsg
  split
  next => rfl
  next enough =>
    have first := argv_zero args (by omega)
    have second := argv_words args 1 (by omega)
    have value (w : World) := exec_word args 0 _ first w
    have message (w : World) := exec_word args 1 _ second w
    rw [exec_bind_ok (value w)]
    change exec (if w.ctx.messages < args.position.toUInt32 then _ else _) (noting [0] w) = _
    split
    next => rfl
    next =>
      rw [exec_bind_ok (message _),exec_bind_ok (value _),exec_bind_ok (exec_updateCtx _ _),exec_bind_ok (value _),
        exec_bind_ok (exec_argument args 1 _),second]
      simp [cliPrint,noting,shownText,Args.position]

def Args.Passes (args : Args) : Prop := 2 ≤ args.argc ∧ ¬(6 : UInt32) < args.position.toUInt32

private theorem quiet_setStartupmsg (args : Args) (requested : args.Passes → startups args.position) (w : World) :
    Leads (Quietly ports startups) (cmdSetStartupmsg args) w := by
  unfold Leads
  rw [exec_setStartupmsg]
  split
  next => exact quiet_aside w _ _
  next enough =>
    split
    next => exact quiet_aside w _ _
    next passed =>
      intro six
      rw [six.messages] at passed
      apply quiet_startups w _ _ _ six
      intro pos
      by_cases same : pos = args.position
      · subst same
        exact .inr (.inr (requested ⟨by omega,passed⟩))
      · exact .inl (Function.update_of_ne same ..)

def Command.Sends (command : Command) : Prop := command = .message ∨ command = .clear

/-- Every other command is quiet: only `set port` sets a port, and only `set startupmsg`
sets a startup message outside the slots. -/
theorem quiet_handler (command : Command) (host : Host) (args : Args) (silent : ¬command.Sends)
    (listed : command = .setPort → ∀ info ∈ host.ports, ports info.port)
    (requested : command = .setStartupmsg → args.Passes → startups args.position) (w : World) :
    Leads (Quietly ports startups) (command.handler host args) w := by
  cases command with
  | set => exact .pure quietly_composes _ w
  | setPort => exact quiet_setPort host args (listed rfl) w
  | setStartupmsg => exact quiet_setStartupmsg args (requested rfl) w
  | setLogfilepath => exact quiet_setLogfiledir host args w
  | setMonitorpath => exact quiet_setMonitorpath host args w
  | save => exact quiet_save host w
  | showPorts => exact quiet_showPorts host args w
  | showPort => exact quiet_print _ w
  | showMessages => exact quiet_showMessages w
  | showStartupmsg => exact quiet_showStartupmsgs w
  | showLogfiledir => exact quiet_print _ w
  | showMonitorpath => exact quiet_print _ w
  | message => exact absurd (.inl rfl) silent
  | clear => exact absurd (.inr rfl) silent

end LEDMessageBoard.Cli
