import LEDMessageBoard.General.Program
import Mathlib.Algebra.Ring.Int.Defs
import Mathlib.Algebra.Ring.Nat
import Mathlib.Logic.Function.Basic

/-! The daemon's context and what surrounds it: the serial line to the board, the
terminal of a CLI client, and the faults that end the process. -/
namespace LEDMessageBoard
open General

abbrev Bytes := List UInt8

def text (literal : String) : Bytes := literal.toList.map fun c => UInt8.ofNat c.toNat

/-- What ends the process: an uncaught exception or undefined behaviour. -/
inductive Fault where
  | nullSerial
  | portNotOpened
  | openFailed
  /-- `serial::SerialException` of `setFlowcontrol`, `setRTS` or `setDTR` -/
  | controlFailed
  | bitsetIndex
  | stringIndex
  /-- an access outside a frame's buffer -/
  | bufferIndex
  | nullArgument
  | filesystem
  | configWrite
deriving DecidableEq, Repr

/-- `serial::Serial`: the name it was built with, and `is_open_`. -/
structure Serial where
  port : Bytes
  isOpen : Bool
deriving DecidableEq, Repr

structure LogOutput where
  name : Bytes
  options : List (Bytes × Bytes)
deriving DecidableEq, Repr

structure LMBCTX where
  configList : List LogOutput
  sp : Option Serial
  port : Bytes
  username : Bytes
  password : Bytes
  enablepass : Bytes
  monitorpath : Bytes
  messages : UInt32
  msgdisplay : List Bool
  displayedmsgs : Int32 → Option Bytes
  startupmsg : Int32 → Option Bytes
  clients : List Int32
  maxCli : UInt32
  consolelog : Bool
  logpath : Bytes
  maxlogfilesize : UInt64

/-- The context `main` allocates and fills in before it loads the configuration.
`consolelog` is left uninitialised there. -/
def mainDefaults (consolelog : Bool) : LMBCTX where
  configList := []
  sp := none
  port := text "/dev/ttyUSB0"
  username := text "Admin"
  password := text "password"
  enablepass := text "enable"
  monitorpath := text "/var/spool/LMBd/"
  messages := 6
  msgdisplay := List.replicate 6 false
  displayedmsgs := fun _ => none
  startupmsg := fun _ => none
  clients := []
  maxCli := 5
  consolelog := consolelog
  logpath := text "/var/log/LMBd"
  maxlogfilesize := 1024*1024

/-- How the serial line behaves during one driver operation. A limit is the number
of bytes a write gets out before it times out, `none` is a write that completes. -/
structure Line where
  opens : Bool
  /-- The modem lines and the flow control can be set. -/
  control : Bool
  /-- What `read(1)` returns after the inquiry byte. -/
  reply : Bytes
  handshake : Nat → Option Nat
  frames : Nat → Option Nat

structure Line.Answers (line : Line) : Prop where
  opens : line.opens = true
  control : line.control = true
  reply : line.reply ≠ []
  handshake : ∀ i, line.handshake i = none
  frames : ∀ i, line.frames i = none

def Line.answering : Line := ⟨true,true,[0x55],fun _ => none,fun _ => none⟩

theorem Line.answering_answers : Line.answering.Answers :=
  ⟨rfl,rfl,by decide,fun _ => rfl,fun _ => rfl⟩

structure Transmission where
  device : Bytes
  bytes : Bytes
deriving DecidableEq, Repr

/-- The context with everything seen from outside, oldest first. `reads` are the
indices of `argv` that command handlers read. -/
structure World where
  ctx : LMBCTX
  wire : List Transmission
  printed : List Bytes
  reads : List Nat

def World.start (ctx : LMBCTX) : World := ⟨ctx,[],[],[]⟩

abbrev DriverM (α : Type) := Program World Fault α

def updateCtx (f : LMBCTX → LMBCTX) : DriverM Unit :=
  modify fun w => {w with ctx := f w.ctx}

@[simp] theorem exec_updateCtx (f : LMBCTX → LMBCTX) (w : World) :
    Program.exec (updateCtx f) w = (.ok (),{w with ctx := f w.ctx}) := rfl

/-- The loop `for (unsigned int i = 1; i <= messages; i++)`, with `i` as a key. -/
def slots (messages : UInt32) : List Int32 := (List.range messages.toNat).map fun i => Int32.ofNat (i + 1)

/-- `std::map::operator[]`: a key that is not there is inserted with an empty text. -/
def subscript (entries : Int32 → Option Bytes) (key : Int32) : Int32 → Option Bytes :=
  Function.update entries key (some ((entries key).getD []))

def valueAt (entries : Int32 → Option Bytes) (key : Int32) : Bytes := (entries key).getD []

theorem foldl_update {κ α : Type} [DecidableEq κ] (change : κ → α → α) (keys : List κ)
    (settled : ∀ key value, change key (change key value) = change key value) (entries : κ → α) (key : κ) :
    keys.foldl (fun entries key => Function.update entries key (change key (entries key))) entries key =
      if key ∈ keys then change key (entries key) else entries key := by
  induction keys generalizing entries with
  | nil => simp
  | cons first rest ih =>
    rw [List.foldl_cons,ih]
    by_cases same : key = first
    · subst same
      simp [settled]
    · simp [same]

/-- What the daemon relies on from `main` on: six slots and one bit for each. -/
structure LMBCTX.SixSlots (ctx : LMBCTX) : Prop where
  messages : ctx.messages = 6
  msgdisplay : ctx.msgdisplay.length = 6

def LMBCTX.InRange (ctx : LMBCTX) (pos : Int32) : Prop :=
  1 ≤ pos.toInt ∧ pos.toInt ≤ ctx.messages.toNat

instance (ctx : LMBCTX) (pos : Int32) : Decidable (ctx.InRange pos) :=
  inferInstanceAs (Decidable (_ ∧ _))

theorem toUInt32_toNat (pos : Int32) :
    (pos.toUInt32.toNat : Int) = if pos.toInt < 0 then pos.toInt + 2^32 else pos.toInt := by
  have signed := BitVec.toInt_eq_toNat_cond pos.toBitVec
  have bound := pos.toBitVec.isLt
  change (pos.toBitVec.toNat : Int) = if pos.toBitVec.toInt < 0 then pos.toBitVec.toInt + 2^32 else pos.toBitVec.toInt
  split at signed <;> split <;> omega

private theorem toInt_bounds (pos : Int32) : -2^31 ≤ pos.toInt ∧ pos.toInt < 2^31 :=
  ⟨pos.le_toInt,pos.toInt_lt⟩

theorem mem_slots (ctx : LMBCTX) (six : ctx.SixSlots) (pos : Int32) : pos ∈ slots ctx.messages ↔ ctx.InRange pos := by
  rw [six.messages,LMBCTX.InRange,six.messages]
  change pos ∈ [1,2,3,4,5,6] ↔ 1 ≤ pos.toInt ∧ pos.toInt ≤ 6
  simp only [List.mem_cons,List.not_mem_nil,or_false,← Int32.toInt_inj]
  change pos.toInt = 1 ∨ pos.toInt = 2 ∨ pos.toInt = 3 ∨ pos.toInt = 4 ∨ pos.toInt = 5 ∨ pos.toInt = 6 ↔ _
  omega

/-- The test `messages < (unsigned int)pos` stops every position outside the slots but 0. -/
theorem guard_iff (ctx : LMBCTX) (six : ctx.SixSlots) (pos : Int32) :
    ctx.messages < pos.toUInt32 ↔ ¬ctx.InRange pos ∧ pos ≠ 0 := by
  have signed := toUInt32_toNat pos
  have bounds := toInt_bounds pos
  have zero : pos = 0 ↔ pos.toInt = 0 := by rw [← Int32.toInt_inj]; rfl
  rw [UInt32.lt_iff_toNat_lt,six.messages,LMBCTX.InRange,six.messages,ne_eq,zero]
  change 6 < pos.toUInt32.toNat ↔ ¬(1 ≤ pos.toInt ∧ pos.toInt ≤ 6) ∧ ¬pos.toInt = 0
  split at signed <;> omega

end LEDMessageBoard
