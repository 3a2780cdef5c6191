import LEDMessageBoard.CliRuns

/-! Saving the configuration and loading it in a fresh process. Every setting survives
but one: what is saved as the log file's path is read back as a directory. -/
namespace LEDMessageBoard.Reload
open General General.Program Config Cli

structure Setting where
  command : Command
  host : Host
  args : Args
  is_set : command ∈ [Command.setPort,.setStartupmsg,.setLogfilepath,.setMonitorpath]

def Setting.program (setting : Setting) : DriverM Unit := setting.command.handler setting.host setting.args

theorem Setting.silent (setting : Setting) : ¬setting.command.Sends := by
  have is_set := setting.is_set
  rintro (message | clear)
  · rw [message] at is_set
    exact absurd is_set (by decide)
  · rw [clear] at is_set
    exact absurd is_set (by decide)

structure SameSettings (saved loaded : LMBCTX) (savedLevel loadedLevel : Level) : Prop where
  port : loaded.port = saved.port
  username : loaded.username = saved.username
  password : loaded.password = saved.password
  enablepass : loaded.enablepass = saved.enablepass
  monitorpath : loaded.monitorpath = saved.monitorpath
  consolelog : loaded.consolelog = saved.consolelog
  level : loadedLevel = savedLevel
  logpath : loaded.logpath = saved.logpath
  maxlogfilesize : loaded.maxlogfilesize = saved.maxlogfilesize
  startupmsg : ∀ slot, saved.InRange slot → valueAt loaded.startupmsg slot = valueAt saved.startupmsg slot

/-- `save` and then `load` in a fresh process, over the files as they are by then. -/
def reload (values : Translator) (files : FileSystem) (level : Level) (uninitialised : Bool) (ctx : LMBCTX) :
    Except LoadError (LMBCTX × Level) :=
  load values files (some (save values level ctx).1) (mainDefaults uninitialised)

def Lossless (values : Translator) (files : FileSystem) (level : Level) (uninitialised : Bool) (ctx : LMBCTX) : Prop :=
  ∃ fresh freshLevel, reload values files level uninitialised ctx = .ok (fresh,freshLevel) ∧
    SameSettings ctx fresh level freshLevel

private theorem loaded_six (values : Translator) (files : FileSystem) (tree : Tree) (uninitialised : Bool) (ctx : LMBCTX)
    (loaded : Loaded values files tree (mainDefaults uninitialised) ctx) : ctx.SixSlots :=
  ⟨loaded.messages,by rw [loaded.msgdisplay]; rfl⟩

private theorem loaded_logpath (values : Translator) (files : FileSystem) (tree : Tree) (uninitialised : Bool) (ctx : LMBCTX)
    (loaded : Loaded values files tree (mainDefaults uninitialised) ctx) : ctx.logpath ≠ [] := by
  rw [loaded.logpath]
  split
  next =>
    change text "/var/log/LMBd" ≠ []
    decide
  next present => exact fun empty => present (List.append_eq_nil_iff.mp empty).1

/-- Everything but the path of the log file survives, whatever the context holds. -/
theorem reload_keeps (values : Translator) (files : FileSystem) (level : Level) (uninitialised : Bool) (ctx : LMBCTX)
    (six : ctx.SixSlots) (fresh : LMBCTX) (freshLevel : Level)
    (ran : reload values files level uninitialised ctx = .ok (fresh,freshLevel)) :
    SameSettings ctx {fresh with logpath := ctx.logpath,consolelog := ctx.consolelog} level freshLevel ∧
      fresh.consolelog = (ctx.consolelog || uninitialised) ∧
      (ctx.logpath ≠ [] → fresh.logpath = ctx.logpath ++ text "/LMBd.Log" ∧ files.kind ctx.logpath = .directory) := by
  obtain ⟨tree,read,admitted,loaded,leveled⟩ := load_success _ _ _ _ _ _ ran
  cases read
  refine ⟨⟨loaded.port,loaded.username,loaded.password,loaded.enablepass,loaded.monitorpath,rfl,?_,rfl,?_,?_⟩,?_,?_⟩
  · rw [leveled]
    exact toLevel_toString level
  · change fresh.maxlogfilesize = ctx.maxlogfilesize
    rw [loaded.maxlogfilesize]
    simp [Tree.getSize,save,saved,values.size_read]
  · intro slot inside
    have member : slot ∈ slots ctx.messages := (mem_slots ctx six slot).mpr inside
    have fresh_member : slot ∈ slots (mainDefaults uninitialised).messages := by
      rw [six.messages] at member
      exact member
    change valueAt fresh.startupmsg slot = _
    rw [valueAt,loaded.startupmsg,if_pos fresh_member]
    simp [Tree.getString,save,saved,member]
  · rw [loaded.consolelog]
    simp [Tree.getBool,save,saved,values.bool_read,mainDefaults]
  · intro present
    exact ⟨loaded.logpath.trans (if_neg present),admitted.logPath present⟩

/-- The daemon starts again only where the two saved paths are directories. -/
theorem reload_starts (values : Translator) (files : FileSystem) (level : Level) (uninitialised : Bool) (ctx : LMBCTX)
    (present : ctx.logpath ≠ []) :
    (∃ fresh freshLevel, reload values files level uninitialised ctx = .ok (fresh,freshLevel)) ↔
      files.kind ctx.monitorpath = .directory ∧ files.kind ctx.logpath = .directory := by
  constructor
  · rintro ⟨fresh,freshLevel,ran⟩
    obtain ⟨tree,read,admitted,_⟩ := load_success _ _ _ _ _ _ ran
    cases read
    exact ⟨admitted.monitorpath,admitted.logPath present⟩
  · rintro ⟨monitored,logged⟩
    exact load_admitted values files _ _ ⟨monitored,fun _ => logged⟩

private theorem settings_quiet (settings : List Setting) (w : World) :
    Leads (Quietly (fun _ => True) fun _ => True) (inSequence (settings.map Setting.program)) w := by
  apply Leads.inSequence quietly_composes
  intro program member state
  obtain ⟨setting,_,rfl⟩ := List.mem_map.mp member
  exact quiet_handler setting.command setting.host setting.args setting.silent (fun _ _ _ => trivial) (fun _ _ => trivial) state

/-- From every context that `main` can load and the `set` commands can reach, saving
and reloading loses the path of the log file or fails. -/
theorem reload_lossy (values : Translator) (files later : FileSystem) (file : Option Tree) (uninitialised again : Bool)
    (ctx : LMBCTX) (level : Level) (started : load values files file (mainDefaults uninitialised) = .ok (ctx,level))
    (settings : List Setting) (w : World) (ran : exec (inSequence (settings.map Setting.program)) (.start ctx) = (.ok (),w)) :
    ¬Lossless values later level again w.ctx := by
  obtain ⟨tree,_,_,loaded,_⟩ := load_success _ _ _ _ _ _ started
  have quiet := settings_quiet settings (.start ctx) (loaded_six values files tree uninitialised ctx loaded)
  rw [ran] at quiet
  have present : w.ctx.logpath ≠ [] := quiet.logpath (loaded_logpath values files tree uninitialised ctx loaded)
  rintro ⟨fresh,freshLevel,reloaded,same⟩
  have longer := ((reload_keeps values later level again w.ctx quiet.six fresh freshLevel reloaded).2.2 present).1
  have lengths := congrArg List.length (longer.symm.trans same.logpath)
  rw [List.length_append] at lengths
  change _ + 9 = _ at lengths
  omega

def setVarLog : Setting :=
  ⟨.setLogfilepath,⟨usualFiles,[],.answering,true⟩,⟨text "logfilepath",[text "/var/log"],[]⟩,by decide⟩

/-- An empty configuration file and `set logfilepath /var/log`: both directories are
there, the reload succeeds, and the path of the log file is another one. -/
theorem reload_loses_logpath :
    ∃ ctx level w, load decimalValues usualFiles (some fun _ => none) (mainDefaults false) = .ok (ctx,level) ∧
      exec (inSequence ([setVarLog].map Setting.program)) (.start ctx) = (.ok (),w) ∧
      usualFiles.kind w.ctx.monitorpath = .directory ∧ usualFiles.kind w.ctx.logpath = .directory ∧
      ¬Lossless decimalValues usualFiles level false w.ctx := by
  refine ⟨_,_,_,rfl,rfl,by decide,by decide,?_⟩
  rintro ⟨fresh,freshLevel,reloaded,same⟩
  cases reloaded
  exact absurd same.logpath (by decide)

theorem reload_lossy_varLog :
    ∃ ctx level w, load decimalValues usualFiles (some fun _ => none) (mainDefaults false) = .ok (ctx,level) ∧
      exec (inSequence ([setVarLog].map Setting.program)) (.start ctx) = (.ok (),w) ∧
      ¬Lossless decimalValues usualFiles level true w.ctx :=
  ⟨_,_,_,rfl,rfl,reload_lossy decimalValues usualFiles usualFiles (some fun _ => none) false true _ _ rfl [setVarLog] _ rfl⟩

end LEDMessageBoard.Reload
