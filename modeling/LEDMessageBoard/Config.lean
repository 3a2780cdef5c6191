import LEDMessageBoard.Context
import Mathlib.Data.List.Basic
import Mathlib.Data.List.TakeWhile

/-! The configuration file: `LMBCTX::load`, `LMBCTX::save` and the log level they share. -/
namespace LEDMessageBoard.Config
open General

/-- What `boost::filesystem::status` finds at a path. -/
inductive FileKind where
  | missing
  | directory
  | other
  /-- `status` fails, and `exists` and `is_directory` throw. -/
  | unreadable
deriving DecidableEq, Repr

structure FileSystem where
  kind : Bytes → FileKind
  empty_missing : kind [] = .missing

inductive Key where
  | serialPort
  | username
  | password
  | enablepass
  | monitorpath
  | consoleLogging
  | consoleLogLevel
  | logPath
  | maxLogFileSize
  | startupmessage (slot : Int32)
deriving DecidableEq

abbrev Tree : Type := Key → Option Bytes

structure Translator where
  ofBool : Bool → Bytes
  toBool : Bytes → Option Bool
  ofSize : UInt64 → Bytes
  toSize : Bytes → Option UInt64
  bool_read : ∀ value, toBool (ofBool value) = some value
  size_read : ∀ value, toSize (ofSize value) = some value

inductive Level where
  | eDebug
  | eInfo
  | eNotice
  | eWarning
  | eError
  | eCritic
deriving DecidableEq, Repr

def Level.toString : Level → Bytes
  | .eDebug => text "DBUG"
  | .eInfo => text "INFO"
  | .eNotice => text "NOTE"
  | .eWarning => text "WARN"
  | .eError => text "EROR"
  | .eCritic => text "CRIT"

/-- `strncmp` over four characters, in the order of the source. -/
def toLevel (name : Bytes) : Level :=
  if name.take 4 = text "DBUG" then .eDebug
  else if name.take 4 = text "INFO" then .eInfo
  else if name.take 4 = text "NOTE" then .eNotice
  else if name.take 4 = text "WARN" then .eWarning
  else if name.take 4 = text "EROR" then .eError
  else .eCritic

theorem toLevel_toString (level : Level) : toLevel level.toString = level := by
  cases level <;> decide

inductive LoadError where
  | json
  /-- "monitorpath does not exist, or isn't a directory" -/
  | monitorpath
  /-- "LogPath does not exist, or isn't a directory" -/
  | logPath
  /-- `boost::filesystem::filesystem_error` -/
  | filesystem
deriving DecidableEq, Repr

def Tree.getString (tree : Tree) (key : Key) (fallback : Bytes) : Bytes := (tree key).getD fallback

/-- `get<bool>(key, fallback)`, which also falls back where the text is no boolean. -/
def Tree.getBool (tree : Tree) (values : Translator) (key : Key) (fallback : Bool) : Bool :=
  ((tree key).bind values.toBool).getD fallback

def Tree.getSize (tree : Tree) (values : Translator) (key : Key) (fallback : UInt64) : UInt64 :=
  ((tree key).bind values.toSize).getD fallback

/-- `exists(path) && is_directory(path)`, and `refused` where it is not. -/
def directory (files : FileSystem) (path : Bytes) (refused : LoadError) : Except LoadError Unit :=
  match files.kind path with
  | .directory => return ()
  | .unreadable => throw .filesystem
  | _ => throw refused

/-- A `std::string` read through its `c_str()`. -/
def cString (value : Bytes) : Bytes := value.takeWhile (· ≠ 0)

theorem cString_terminated (value rest : Bytes) (clean : 0 ∉ value) : cString (value ++ 0 :: rest) = value := by
  have characters : ∀ c ∈ value, decide (c ≠ 0) = true := by
    intro c member
    exact decide_eq_true fun zero => clean (zero ▸ member)
  rw [cString,List.takeWhile_append_of_pos characters]
  simp

theorem cString_clean (value : Bytes) (clean : 0 ∉ value) : cString value = value := by
  apply List.takeWhile_eq_self_iff.mpr
  intro c member
  exact decide_eq_true fun zero => clean (zero ▸ member)

def addOutput (configList : List LogOutput) (name : Bytes) : List LogOutput := configList ++ [⟨name,[]⟩]

/-- An option of the output that was added last. -/
def setOption (configList : List LogOutput) (key value : Bytes) : List LogOutput :=
  match configList.getLast? with
  | none => configList
  | some output => configList.dropLast ++ [{output with options := (key,cString value) :: output.options}]

def decimal (value : UInt64) : Bytes := text (toString value.toNat)

def loadAccess (tree : Tree) (ctx : LMBCTX) : LMBCTX :=
  {ctx with
    port := tree.getString .serialPort (text "/dev/ttyUSB0")
    username := tree.getString .username (text "admin")
    password := tree.getString .password (text "password")
    enablepass := tree.getString .enablepass (text "password")}

def loadMonitorpath (files : FileSystem) (tree : Tree) (ctx : LMBCTX) : Except LoadError LMBCTX := do
  directory files (tree.getString .monitorpath (text "/var/spool/LMBd")) .monitorpath
  return {ctx with monitorpath := tree.getString .monitorpath (text "/var/spool/LMBd")}

/-- `consolelog` is only ever set, never cleared. -/
def loadConsole (values : Translator) (tree : Tree) (ctx : LMBCTX) : LMBCTX :=
  if tree.getBool values .consoleLogging false = true then
    {ctx with configList := addOutput ctx.configList (text "OutputConsole"),consolelog := true}
  else ctx

def loadLogPath (files : FileSystem) (tree : Tree) (ctx : LMBCTX) : Except LoadError LMBCTX :=
  if (tree.getString .logPath (text "/var/log/LMBd/")).length > 0 then do
    directory files (tree.getString .logPath (text "/var/log/LMBd/")) .logPath
    return {ctx with logpath := tree.getString .logPath (text "/var/log/LMBd/") ++ text "/LMBd.Log"}
  else return ctx

def loadLogFile (values : Translator) (tree : Tree) (ctx : LMBCTX) : LMBCTX :=
  let size := tree.getSize values .maxLogFileSize (1024*1024)
  let configList := addOutput ctx.configList (text "OutputFile")
  let configList := setOption configList (text "filename") ctx.logpath
  let configList := setOption configList (text "filename_old") (ctx.logpath ++ text ".old")
  let configList := setOption configList (text "max_startup_size") (text "0")
  {ctx with configList := setOption configList (text "max_size") (decimal size),maxlogfilesize := size}

def loadStartup (tree : Tree) (ctx : LMBCTX) : LMBCTX :=
  let insert (entries : Int32 → Option Bytes) (slot : Int32) : Int32 → Option Bytes :=
    Function.update entries slot (some (tree.getString (.startupmessage slot) []))
  {ctx with startupmsg := (slots ctx.messages).foldl insert ctx.startupmsg}

/-- `LMBCTX::load` and the level it sets on the logger. `file` is what `read_json` makes
of the file, `none` where it throws. -/
def load (values : Translator) (files : FileSystem) (file : Option Tree) (ctx : LMBCTX) :
    Except LoadError (LMBCTX × Level) :=
  match file with
  | none => throw .json
  | some tree => do
    let ctx ← loadMonitorpath files tree (loadAccess tree ctx)
    let ctx ← loadLogPath files tree (loadConsole values tree ctx)
    let ctx := loadStartup tree (loadLogFile values tree ctx)
    return (ctx,toLevel (tree.getString .consoleLogLevel (text "Warning")))

def saved (values : Translator) (level : Level) (ctx : LMBCTX) : Tree
  | .serialPort => some ctx.port
  | .username => some ctx.username
  | .password => some ctx.password
  | .enablepass => some ctx.enablepass
  | .monitorpath => some ctx.monitorpath
  | .consoleLogging => some (values.ofBool ctx.consolelog)
  | .consoleLogLevel => some level.toString
  | .logPath => some ctx.logpath
  | .maxLogFileSize => some (values.ofSize ctx.maxlogfilesize)
  | .startupmessage slot => if slot ∈ slots ctx.messages then some (valueAt ctx.startupmsg slot) else none

/-- `LMBCTX::save` reads `startupmsg` with `operator[]`. -/
def save (values : Translator) (level : Level) (ctx : LMBCTX) : Tree × LMBCTX :=
  (saved values level ctx,{ctx with startupmsg := (slots ctx.messages).foldl subscript ctx.startupmsg})

structure Loaded (values : Translator) (files : FileSystem) (tree : Tree) (ctx loaded : LMBCTX) : Prop where
  port : loaded.port = tree.getString .serialPort (text "/dev/ttyUSB0")
  username : loaded.username = tree.getString .username (text "admin")
  password : loaded.password = tree.getString .password (text "password")
  enablepass : loaded.enablepass = tree.getString .enablepass (text "password")
  monitorpath : loaded.monitorpath = tree.getString .monitorpath (text "/var/spool/LMBd")
  consolelog : loaded.consolelog = (tree.getBool values .consoleLogging false || ctx.consolelog)
  logpath : loaded.logpath = if tree.getString .logPath (text "/var/log/LMBd/") = [] then ctx.logpath
    else tree.getString .logPath (text "/var/log/LMBd/") ++ text "/LMBd.Log"
  maxlogfilesize : loaded.maxlogfilesize = tree.getSize values .maxLogFileSize (1024*1024)
  startupmsg : ∀ slot, loaded.startupmsg slot = if slot ∈ slots ctx.messages
    then some (tree.getString (.startupmessage slot) []) else ctx.startupmsg slot
  sp : loaded.sp = ctx.sp
  messages : loaded.messages = ctx.messages
  msgdisplay : loaded.msgdisplay = ctx.msgdisplay
  displayedmsgs : loaded.displayedmsgs = ctx.displayedmsgs
  clients : loaded.clients = ctx.clients
  maxCli : loaded.maxCli = ctx.maxCli

structure Admitted (files : FileSystem) (tree : Tree) : Prop where
  monitorpath : files.kind (tree.getString .monitorpath (text "/var/spool/LMBd")) = .directory
  logPath : tree.getString .logPath (text "/var/log/LMBd/") ≠ [] →
    files.kind (tree.getString .logPath (text "/var/log/LMBd/")) = .directory

private theorem directory_ok (files : FileSystem) (path : Bytes) (refused : LoadError) :
    directory files path refused = .ok () ↔ files.kind path = .directory := by
  unfold directory
  cases files.kind path <;> simp [pure,Except.pure,throw,throwThe,MonadExceptOf.throw]

theorem except_bind_success {ε α β : Type} (first : Except ε α) (next : α → Except ε β) (result : β)
    (ok : (first >>= next) = .ok result) : ∃ value, first = .ok value ∧ next value = .ok result := by
  cases first with
  | error fault => simp [bind,Except.bind] at ok
  | ok value => exact ⟨value,rfl,ok⟩

private theorem loadLogPath_success (files : FileSystem) (tree : Tree) (ctx loaded : LMBCTX)
    (ok : loadLogPath files tree ctx = .ok loaded) :
    (tree.getString .logPath (text "/var/log/LMBd/") ≠ [] →
      files.kind (tree.getString .logPath (text "/var/log/LMBd/")) = .directory) ∧
    loaded = {ctx with logpath := if tree.getString .logPath (text "/var/log/LMBd/") = [] then ctx.logpath
      else tree.getString .logPath (text "/var/log/LMBd/") ++ text "/LMBd.Log"} := by
  unfold loadLogPath at ok
  split at ok
  next some_path =>
    have present := List.length_pos_iff.mp some_path
    obtain ⟨_,checked,done⟩ := except_bind_success _ _ _ ok
    cases done
    exact ⟨fun _ => (directory_ok ..).mp checked,by rw [if_neg present]⟩
  next no_path =>
    have absent : tree.getString .logPath (text "/var/log/LMBd/") = [] := by simpa using no_path
    cases ok
    exact ⟨fun present => absurd absent present,by rw [if_pos absent]⟩

private theorem loadMonitorpath_success (files : FileSystem) (tree : Tree) (ctx loaded : LMBCTX)
    (ok : loadMonitorpath files tree ctx = .ok loaded) :
    files.kind (tree.getString .monitorpath (text "/var/spool/LMBd")) = .directory ∧
    loaded = {ctx with monitorpath := tree.getString .monitorpath (text "/var/spool/LMBd")} := by
  obtain ⟨_,checked,done⟩ := except_bind_success _ _ _ ok
  cases done
  exact ⟨(directory_ok ..).mp checked,rfl⟩

private theorem loadStartup_startupmsg (tree : Tree) (ctx : LMBCTX) (slot : Int32) :
    (loadStartup tree ctx).startupmsg slot = if slot ∈ slots ctx.messages
      then some (tree.getString (.startupmessage slot) []) else ctx.startupmsg slot :=
  foldl_update (fun slot _ => some (tree.getString (.startupmessage slot) [])) _ (fun _ _ => rfl) _ slot

private theorem loadRest_loaded (values : Translator) (files : FileSystem) (tree : Tree) (ctx middle loaded : LMBCTX)
    (monitored : loadMonitorpath files tree (loadAccess tree ctx) = .ok middle)
    (logged : loadLogPath files tree (loadConsole values tree middle) = .ok loaded) :
    Loaded values files tree ctx (loadStartup tree (loadLogFile values tree loaded)) := by
  obtain ⟨_,rfl⟩ := loadMonitorpath_success _ _ _ _ monitored
  obtain ⟨_,rfl⟩ := loadLogPath_success _ _ _ _ logged
  unfold loadConsole
  cases flag : tree.getBool values .consoleLogging false with
  | true =>
    refine ⟨rfl,rfl,rfl,rfl,rfl,?_,rfl,rfl,loadStartup_startupmsg tree _,rfl,rfl,rfl,rfl,rfl,rfl⟩
    rw [flag]
    rfl
  | false =>
    refine ⟨rfl,rfl,rfl,rfl,rfl,?_,rfl,rfl,loadStartup_startupmsg tree _,rfl,rfl,rfl,rfl,rfl,rfl⟩
    rw [flag]
    rfl

theorem load_success (values : Translator) (files : FileSystem) (file : Option Tree) (ctx loaded : LMBCTX)
    (level : Level) (ok : load values files file ctx = .ok (loaded,level)) :
    ∃ tree, file = some tree ∧ Admitted files tree ∧ Loaded values files tree ctx loaded ∧
      level = toLevel (tree.getString .consoleLogLevel (text "Warning")) := by
  cases file with
  | none => cases ok
  | some tree =>
    obtain ⟨middle,monitored,rest⟩ := except_bind_success _ _ _ ok
    obtain ⟨last,logged,done⟩ := except_bind_success _ _ _ rest
    cases done
    exact ⟨tree,rfl,⟨(loadMonitorpath_success _ _ _ _ monitored).1,(loadLogPath_success _ _ _ _ logged).1⟩,
      loadRest_loaded values files tree ctx middle last monitored logged,rfl⟩

theorem load_admitted (values : Translator) (files : FileSystem) (tree : Tree) (ctx : LMBCTX)
    (admitted : Admitted files tree) :
    ∃ loaded level, load values files (some tree) ctx = .ok (loaded,level) := by
  have monitored := (directory_ok files _ .monitorpath).mpr admitted.monitorpath
  by_cases absent : tree.getString .logPath (text "/var/log/LMBd/") = []
  · simp [load,loadMonitorpath,loadLogPath,monitored,absent,bind,Except.bind,pure,Except.pure]
  · have logged := (directory_ok files _ .logPath).mpr (admitted.logPath absent)
    have present : 0 < (tree.getString .logPath (text "/var/log/LMBd/")).length := List.length_pos_iff.mpr absent
    simp [load,loadMonitorpath,loadLogPath,monitored,present,logged,bind,Except.bind,pure,Except.pure]

def isDigit (byte : UInt8) : Bool := 48 ≤ byte && byte ≤ 57

def magnitude (digits : Bytes) : Nat :=
  (digits.takeWhile isDigit).foldl (fun value digit => 10 * value + (digit.toNat - 48)) 0

theorem magnitude_decimal (value : Nat) : magnitude (text (toString value)) = value ∧
    (text (toString value)).all isDigit = true := by
  have digits : (toString value).toList = Nat.toDigits 10 value := Nat.toList_repr
  have byte : ∀ c ∈ Nat.toDigits 10 value, isDigit (UInt8.ofNat c.toNat) = true ∧
      (UInt8.ofNat c.toNat).toNat - 48 = c.toNat - '0'.toNat := by
    intro c member
    have digit := Nat.isDigit_of_mem_toDigits (by decide) (by decide) member
    simp only [Char.isDigit,Bool.and_eq_true,decide_eq_true_eq,ge_iff_le] at digit
    obtain ⟨low,high⟩ := digit
    have low' : 48 ≤ c.toNat := low
    have high' : c.toNat ≤ 57 := high
    have same : (UInt8.ofNat c.toNat).toNat = c.toNat := UInt8.toNat_ofNat_of_lt' (by change c.toNat < 256; omega)
    refine ⟨?_,by rw [same]; rfl⟩
    simp only [isDigit,Bool.and_eq_true,decide_eq_true_eq,UInt8.le_iff_toNat_le,same]
    exact ⟨low',high'⟩
  have all_digits : (text (toString value)).all isDigit = true := by
    rw [text,digits,List.all_map,List.all_eq_true]
    exact fun c member => (byte c member).1
  refine ⟨?_,all_digits⟩
  rw [magnitude,List.takeWhile_eq_self_iff.mpr (List.all_eq_true.mp all_digits),text,digits,List.foldl_map]
  calc (Nat.toDigits 10 value).foldl (fun total c => 10 * total + ((UInt8.ofNat c.toNat).toNat - 48)) 0
      = Nat.ofDigitChars 10 (Nat.toDigits 10 value) 0 := by
        rw [Nat.ofDigitChars_eq_foldl]
        exact List.foldl_ext _ _ _ fun total c member => by rw [(byte c member).2]
    _ = value := Nat.ofDigitChars_ten_toDigits

def decimalValues : Translator where
  ofBool value := if value then text "true" else text "false"
  toBool value := if value = text "true" then some true else if value = text "false" then some false else none
  ofSize := decimal
  toSize value :=
    if value.all isDigit ∧ magnitude value < 2^64 then some (UInt64.ofNat (magnitude value)) else none
  bool_read value := by cases value <;> decide
  size_read value := by
    obtain ⟨read,digits⟩ := magnitude_decimal value.toNat
    have bound : value.toNat < 2^64 := value.toNat_lt
    rw [decimal,read,digits,if_pos ⟨rfl,bound⟩,UInt64.ofNat_toNat]

def usualFiles : FileSystem where
  kind path := if path ∈ [text "/var/spool/LMBd",text "/var/log/LMBd/",text "/var/log"] then .directory else .missing
  empty_missing := by decide

end LEDMessageBoard.Config
