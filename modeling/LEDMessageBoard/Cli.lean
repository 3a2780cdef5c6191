import LEDMessageBoard.Config
import LEDMessageBoard.Driver

/-! The command handlers of a CLI session. Each runs with `io_mutex` held, so a whole
handler is one step. -/
namespace LEDMessageBoard.Cli
open General General.Program Config Driver

/-- What `libcli` hands to a handler: the words up to the first filter are counted, the
words from there on stay behind them in the same array, and a NULL entry ends it. -/
structure Args where
  command : Bytes
  words : List Bytes
  filters : List Bytes

def Args.argc (args : Args) : Nat := args.words.length

def Args.argv (args : Args) (index : Nat) : Option Bytes := (args.words ++ args.filters)[index]?

structure PortInfo where
  port : Bytes
  description : Bytes

structure Host where
  files : FileSystem
  ports : List PortInfo
  line : Line
  /-- `write_json` succeeds. -/
  writable : Bool

def argument (args : Args) (index : Nat) : DriverM (Option Bytes) := do
  modify fun w => {w with reads := w.reads ++ [index]}
  return args.argv index

/-- Reads the text that `argv[index]` points to. -/
def word (args : Args) (index : Nat) : DriverM Bytes := do
  match ← argument args index with
  | some value => return value
  | none => throw .nullArgument

def shownText (value : Option Bytes) : Bytes := value.getD (text "(null)")

def cliPrint (line : Bytes) : DriverM Unit := modify fun w => {w with printed := w.printed ++ [line]}

def isSpace (byte : UInt8) : Bool := byte = 32 || (9 ≤ byte && byte ≤ 13)

/-- `strtol(value, NULL, 10)` before it is cut to the range of `long`. -/
def signed (value : Bytes) : Int :=
  match value.dropWhile isSpace with
  | 0x2D :: digits => -(magnitude digits : Int)
  | 0x2B :: digits => magnitude digits
  | digits => magnitude digits

def strtol (value : Bytes) : Int := max (-2^63) (min (signed value) (2^63 - 1))

def atoi (value : Bytes) : Int32 := Int32.ofInt (strtol value)

def shownInt (value : Int) : Bytes := text (toString value)

def cmdSave (host : Host) : DriverM Unit := do
  updateCtx fun ctx => {ctx with startupmsg := (slots ctx.messages).foldl subscript ctx.startupmsg}
  if host.writable then cliPrint (text "Saved Config") else throw .configWrite

def cmdShowPorts (host : Host) (args : Args) : DriverM Unit := do
  cliPrint (text "called cmd_show_ports with \"" ++ args.command ++ text "\"")
  cliPrint (shownInt args.argc ++ text " arguments:")
  inSequence ((List.range args.argc).map fun i => do
    let value ← argument args i
    cliPrint (text "        " ++ shownText value))
  inSequence (host.ports.map fun info =>
    cliPrint (text "Port: " ++ cString info.port ++ text " Description: " ++ cString info.description))

def cmdShowPort : DriverM Unit := do
  cliPrint (text "Port: " ++ cString (← get).ctx.port)

def readBit (slot : Int32) : DriverM Bool := do
  match (← get).ctx.msgdisplay[bitIndex slot]? with
  | some bit => return bit
  | none => throw .bitsetIndex

def showMessage (slot : Int32) : DriverM Unit := do
  if ← readBit slot then
    updateCtx fun ctx => {ctx with displayedmsgs := subscript ctx.displayedmsgs slot}
    let ctx := (← get).ctx
    cliPrint (text "Message " ++ shownInt slot.toInt ++ text ": " ++ cString (valueAt ctx.displayedmsgs slot))

def cmdShowMessages : DriverM Unit := do
  inSequence ((slots (← get).ctx.messages).map showMessage)

def showStartupmsg (slot : Int32) : DriverM Unit := do
  updateCtx fun ctx => {ctx with startupmsg := subscript ctx.startupmsg slot}
  let message := valueAt (← get).ctx.startupmsg slot
  if message.length > 0 then
    cliPrint (text "Startup Message " ++ shownInt slot.toInt ++ text ": " ++ cString message)

def cmdShowStartupmsgs : DriverM Unit := do
  inSequence ((slots (← get).ctx.messages).map showStartupmsg)

def cmdShowLogfiledir : DriverM Unit := do
  cliPrint (text "logfiledir set to " ++ cString (← get).ctx.logpath)

def cmdShowMonitorpath : DriverM Unit := do
  cliPrint (text "monitorpath set to " ++ cString (← get).ctx.monitorpath)

def cmdSet : DriverM Unit := return ()

def setListedPort (args : Args) : List PortInfo → DriverM Unit
  | [] => do
    let missing ← argument args 1
    cliPrint (text "No Serial Port Matching " ++ shownText missing ++ text " was found")
  | info :: rest => do
    let wanted ← word args 0
    if info.port = wanted then
      cliPrint (text "Setting Serial Port to " ++ cString info.port)
      updateCtx fun ctx => {ctx with port := info.port}
    else setListedPort args rest

def cmdSetPort (host : Host) (args : Args) : DriverM Unit := do
  let value ← word args 0
  if value = text "?" then cliPrint (text "Specify a value")
  else
    -- `!argv[0]`: the second test, of the address of `argv[0]`, is never reached
    discard (argument args 0)
    setListedPort args host.ports

def cmdSetStartupmsg (args : Args) : DriverM Unit := do
  if args.argc < 2 then cliPrint (text "usage: set startupmsg <pos> <message>")
  else
    let pos ← word args 0
    if (← get).ctx.messages < (atoi pos).toUInt32 then cliPrint (text "Position out of Range")
    else
      let message ← word args 1
      let pos ← word args 0
      updateCtx fun ctx => {ctx with startupmsg := Function.update ctx.startupmsg (atoi pos) (some message)}
      let pos ← word args 0
      let shown ← argument args 1
      cliPrint (text "Startup Message " ++ shownInt (atoi pos).toInt ++ text " set to " ++ shownText shown)

/-- The body that `cmd_set_logfiledir` and `cmd_set_monitorpath` share. -/
def setDirectory (host : Host) (args : Args) (usage label : Bytes) (assign : Bytes → LMBCTX → LMBCTX) : DriverM Unit := do
  if args.argc < 1 then cliPrint usage
  else
    let dir ← word args 0
    match host.files.kind dir with
    | .unreadable => throw .filesystem
    | .missing =>
      let shown ← argument args 0
      cliPrint (text "Directory " ++ shownText shown ++ text " doesn't exist")
    | .other =>
      let shown ← argument args 0
      cliPrint (text "Path " ++ shownText shown ++ text " isn't a directory")
    | .directory =>
      let value ← word args 0
      updateCtx (assign value)
      let shown ← argument args 0
      cliPrint (label ++ text " set to " ++ shownText shown)

def cmdSetLogfiledir (host : Host) (args : Args) : DriverM Unit :=
  setDirectory host args (text "usage: set logfiledir <dir>") (text "LogFileDir") fun value ctx => {ctx with logpath := value}

def cmdSetMonitorpath (host : Host) (args : Args) : DriverM Unit :=
  setDirectory host args (text "usage: set monitorpath <dir>") (text "monitorpath")
    fun value ctx => {ctx with monitorpath := value}

def cmdMessage (host : Host) (args : Args) : DriverM Unit := do
  if args.argc < 2 then cliPrint (text "usage: message <pos> <message>")
  else operate host.line do
    let pos ← word args 0
    let message ← word args 1
    return (atoi pos,message)

def cmdClear (host : Host) (args : Args) : DriverM Unit := do
  if args.argc < 1 then cliPrint (text "usage: clear <pos>")
  else operate host.line do
    let pos ← word args 0
    return (atoi pos,[])

inductive Command where
  | set
  | setPort
  | setStartupmsg
  | setLogfilepath
  | setMonitorpath
  | save
  | showPorts
  | showPort
  | showMessages
  | showStartupmsg
  | showLogfiledir
  | showMonitorpath
  | message
  | clear
deriving DecidableEq, Repr

def Command.handler (command : Command) (host : Host) (args : Args) : DriverM Unit :=
  match command with
  | .set => cmdSet
  | .setPort => cmdSetPort host args
  | .setStartupmsg => cmdSetStartupmsg args
  | .setLogfilepath => cmdSetLogfiledir host args
  | .setMonitorpath => cmdSetMonitorpath host args
  | .save => cmdSave host
  | .showPorts => cmdShowPorts host args
  | .showPort => cmdShowPort
  | .showMessages => cmdShowMessages
  | .showStartupmsg => cmdShowStartupmsgs
  | .showLogfiledir => cmdShowLogfiledir
  | .showMonitorpath => cmdShowMonitorpath
  | .message => cmdMessage host args
  | .clear => cmdClear host args

example : atoi (text " -12x") = -12 ∧ atoi (text "4294967297") = 1 ∧ atoi (text "six") = 0 := by decide

end LEDMessageBoard.Cli
