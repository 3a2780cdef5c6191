import LEDMessageBoard.Daemon

/-! The faults that end the daemon while it serves. Whether a critical section meets one is
decided by what it is called with, not by what has gone before. -/
namespace LEDMessageBoard.Faults
open General General.Program Config Driver Cli Daemon

/-- The fault of one `Init`, `setMessage` and `Fini`, where they meet one. -/
def operateFailure (line : Line) (pos : Int32) : Option Fault :=
  if line.opens = false then some .openFailed
  else if line.control = false then some .controlFailed
  else if pos = 0 then some .bitsetIndex
  else none

/-- The fault of a handler, from what it is called with. -/
def commandFailure (host : Host) (args : Args) : Command → Option Fault
  | .setPort => if args.argv 0 = none then some .nullArgument else none
  | .setLogfilepath | .setMonitorpath =>
    if 1 ≤ args.argc ∧ host.files.kind (args.words.headD []) = .unreadable then some .filesystem else none
  | .save => if host.writable then none else some .configWrite
  | .message => if args.argc < 2 then none else operateFailure host.line args.position
  | .clear => if args.argc < 1 then none else operateFailure host.line args.position
  | _ => none

section Shows

variable {relation : World → Option Fault → World → Prop} (composes : Composes relation)
  (aside : ∀ w printed reads, relation w none {w with printed := printed,reads := reads})

include composes aside

/-- What holds of a print and of a look at `argv` holds of `show ports`. -/
theorem leads_showPorts (host : Host) (args : Args) (w : World) : Leads relation (cmdShowPorts host args) w := by
  have printed (line : Bytes) (w : World) : Leads relation (cliPrint line) w := .of_exec rfl (aside w _ _)
  apply Leads.bind composes (printed _ w)
  intro _ w _
  apply Leads.bind composes (printed _ w)
  intro _ w _
  apply Leads.bind composes
  · apply Leads.inSequence composes
    intro program member state
    obtain ⟨index,_,same⟩ := List.mem_map.mp member
    subst same
    apply Leads.bind composes (.of_exec (exec_argument args index state) (aside state _ _))
    intro _ middle _
    exact printed _ middle
  · intro _ w _
    apply Leads.inSequence composes
    intro program member state
    obtain ⟨info,_,same⟩ := List.mem_map.mp member
    subst same
    exact printed _ state

/-- The same for `show startupmsg`, which also inserts an empty text for a slot that has none. -/
theorem leads_showStartupmsgs
    (inserts : ∀ w slot, relation w none {w with ctx := {w.ctx with startupmsg := subscript w.ctx.startupmsg slot}})
    (w : World) : Leads relation cmdShowStartupmsgs w := by
  change Leads relation (inSequence ((slots w.ctx.messages).map showStartupmsg)) w
  apply Leads.inSequence composes
  intro program member state
  obtain ⟨slot,_,same⟩ := List.mem_map.mp member
  subst same
  apply Leads.bind composes (.of_exec (exec_updateCtx _ state) (inserts state slot))
  intro _ middle _
  apply Leads.get_bind
  dsimp only
  split
  next => exact .of_exec rfl (aside middle _ _)
  next => exact .pure composes _ middle

end Shows

section Handlers

variable (host : Host) (args : Args) (w : World)

end Handlers

end LEDMessageBoard.Faults
