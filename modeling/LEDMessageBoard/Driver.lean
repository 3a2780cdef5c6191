import LEDMessageBoard.Frame
import LEDMessageBoard.Escape

/-! The driver of the board: `Init`, `setMessage`, `StartUp` and `Fini` over one
context and one serial line. Results that the callers ignore are kept here. -/
namespace LEDMessageBoard.Driver
open General General.Program LEDMessageBoard.Frame Escape

/-- The bytes of a write that go out before it times out. -/
def transmitted (limit : Option Nat) (data : Bytes) : Bytes :=
  match limit with
  | none => data
  | some count => data.take count

/-- `sp->write(data, n)`: the number of bytes written. -/
def serialWrite (limit : Option Nat) (data : Bytes) : DriverM Nat := do
  match (← get).ctx.sp with
  | none => throw .nullSerial
  | some sp =>
    if sp.isOpen then
      modify fun w => {w with wire := w.wire ++ [⟨sp.port,transmitted limit data⟩]}
      return (transmitted limit data).length
    else throw .portNotOpened

/-- The first test of `Init`: is there a `Serial` object afterwards? -/
def acquire (line : Line) : DriverM Bool := do
  let ctx := (← get).ctx
  if ctx.sp = none ∧ ctx.port.length ≠ 0 then
    if line.opens then
      updateCtx fun ctx => {ctx with sp := some ⟨ctx.port,true⟩}
      return true
    else throw .openFailed
  else return ctx.sp.isSome

/-- `if (!sp->isOpen()) sp->open();` -/
def reopen (line : Line) : DriverM Unit := do
  match (← get).ctx.sp with
  | none => throw .nullSerial
  | some sp =>
    if sp.isOpen then return ()
    else if line.opens then updateCtx fun ctx => {ctx with sp := some {sp with isOpen := true}}
    else throw .openFailed

def setControl (line : Line) : DriverM Unit :=
  if line.control then return () else throw .controlFailed

def handshake (line : Line) : DriverM Bool := do
  discard (serialWrite (line.handshake 0) [0x54])
  if line.reply.length > 0 then
    discard (serialWrite (line.handshake 1) [0x41])
    discard (serialWrite (line.handshake 2) [0x42])
    discard (serialWrite (line.handshake 3) [0x43])
    discard (serialWrite (line.handshake 4) [0x44])
    discard (serialWrite (line.handshake 5) [0x45])
    return true
  else return false

def init (line : Line) : DriverM Bool := do
  if ← acquire line then
    reopen line
    setControl line
    handshake line
  else return false

/-- The index `pos-1`, an `int` that is converted to `size_t`. -/
def bitIndex (pos : Int32) : Nat := ((pos - 1).toInt % 2^64).toNat

def assignBit (pos : Int32) (value : Bool) : DriverM Unit := do
  if bitIndex pos < (← get).ctx.msgdisplay.length then
    updateCtx fun ctx => {ctx with msgdisplay := ctx.msgdisplay.set (bitIndex pos) value}
  else throw .bitsetIndex

def assignMessage (pos : Int32) (message : Bytes) : DriverM Unit :=
  updateCtx fun ctx => {ctx with displayedmsgs := Function.update ctx.displayedmsgs pos (some message)}

def toUlong (bits : List Bool) : Nat := bits.foldr (fun bit rest => bit.toNat + 2 * rest) 0

/-- The conversion of `int pos` to the `uint8_t pos` of `setMessageNumber`. -/
def posByte (pos : Int32) : UInt8 := pos.toUInt32.toUInt8

/-- The four frames are built before the first one is written. -/
def sendFrames (line : Line) (pos : Int32) (message : Bytes) : DriverM Unit := do
  let frame1 ← checked (dataFrame 1 header1 (posByte pos) message)
  let frame2 ← checked (dataFrame 2 header2 (posByte pos) message)
  let frame3 ← checked (dataFrame 3 header3 (posByte pos) message)
  let frame4 ← checked (dataFrame 4 header4 (posByte pos) message)
  discard (serialWrite (line.frames 0) frame1)
  discard (serialWrite (line.frames 1) frame2)
  discard (serialWrite (line.frames 2) frame3)
  discard (serialWrite (line.frames 3) frame4)

def sendMask (line : Line) : DriverM Unit := do
  let mask := UInt8.ofNat (toUlong (← get).ctx.msgdisplay)
  discard (serialWrite (line.frames 4) [0x02,0x33,mask])

def setMessage (line : Line) (pos : Int32) (message : Bytes) : DriverM Bool := do
  if (← get).ctx.messages < pos.toUInt32 then
    return false
  else
    let message := trim message
    if message.length > 0 then
      assignMessage pos message
      assignBit pos true
      sendFrames line pos (escape message)
    else
      assignMessage pos []
      assignBit pos false
    sendMask line
    return true

def fini : DriverM Bool := do
  match (← get).ctx.sp with
  | none => throw .nullSerial
  | some sp =>
    updateCtx fun ctx => {ctx with sp := some {sp with isOpen := false}}
    return true

def startUp : DriverM Bool := return true

/-- `Init(); setMessage(pos, message); Fini();` as every caller runs it: no result is
looked at. The arguments of `setMessage` are evaluated after `Init`. -/
def operate (line : Line) (arguments : DriverM (Int32 × Bytes)) : DriverM Unit := do
  discard (init line)
  let (pos,message) ← arguments
  discard (setMessage line pos message)
  discard fini

def deliver (line : Line) (pos : Int32) (message : Bytes) : DriverM Unit := operate line (return (pos,message))

end LEDMessageBoard.Driver
