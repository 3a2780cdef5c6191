import LEDMessageBoard.Driver

/-! What each driver operation does to the world, on every path. Callers use these
equations and never unfold an operation. -/
namespace LEDMessageBoard.Driver
open General General.Program General.Blocks LEDMessageBoard.Frame Escape

def device (ctx : LMBCTX) : Bytes :=
  match ctx.sp with
  | none => ctx.port
  | some sp => sp.port

def opened (w : World) : World := {w with ctx := {w.ctx with sp := some ⟨device w.ctx,true⟩}}

def sent (w : World) (target : Bytes) (chunks : List Bytes) : World :=
  {w with wire := w.wire ++ chunks.map fun bytes => ⟨target,bytes⟩}

def NoLine (ctx : LMBCTX) : Prop := ctx.sp = none ∧ ctx.port = []

def MustOpen (ctx : LMBCTX) : Prop := ∀ sp, ctx.sp = some sp → sp.isOpen = false

instance (ctx : LMBCTX) : Decidable (NoLine ctx) := inferInstanceAs (Decidable (_ ∧ _))

instance (ctx : LMBCTX) : Decidable (MustOpen ctx) :=
  match h : ctx.sp with
  | none => .isTrue (by intro sp found; rw [h] at found; cases found)
  | some sp =>
    if closed : sp.isOpen = false then .isTrue (by intro other found; rw [h] at found; cases found; exact closed)
    else .isFalse (fun all => closed (all sp h))

@[simp] theorem opened_wire (w : World) : (opened w).wire = w.wire := rfl
@[simp] theorem sent_ctx (w : World) (target : Bytes) (chunks : List Bytes) : (sent w target chunks).ctx = w.ctx := rfl
@[simp] theorem sent_wire (w : World) (target : Bytes) (chunks : List Bytes) :
    (sent w target chunks).wire = w.wire ++ chunks.map fun bytes => ⟨target,bytes⟩ := rfl

theorem sent_sent (w : World) (target : Bytes) (first second : List Bytes) :
    sent (sent w target first) target second = sent w target (first ++ second) := by
  simp [sent]

private theorem exec_serialWrite (limit : Option Nat) (data : Bytes) (w : World) (target : Bytes)
    (ready : w.ctx.sp = some ⟨target,true⟩) :
    exec (discard (serialWrite limit data)) w = (.ok (),sent w target [transmitted limit data]) := by
  rw [exec_discard]
  simp [serialWrite,exec_bind,ready,sent,Except.map]

private theorem exec_serialWrite_bind {α : Type} (limit : Option Nat) (data : Bytes) (w : World) (target : Bytes)
    (ready : w.ctx.sp = some ⟨target,true⟩) (next : Unit → DriverM α) :
    exec (discard (serialWrite limit data) >>= next) w =
      exec (next ()) (sent w target [transmitted limit data]) :=
  exec_bind_ok (exec_serialWrite limit data w target ready) next

theorem exec_handshake (line : Line) (w : World) (target : Bytes) (ready : w.ctx.sp = some ⟨target,true⟩) :
    exec (handshake line) w =
      if line.reply = [] then (.ok false,sent w target [transmitted (line.handshake 0) [0x54]])
      else (.ok true,sent w target [transmitted (line.handshake 0) [0x54],transmitted (line.handshake 1) [0x41],
        transmitted (line.handshake 2) [0x42],transmitted (line.handshake 3) [0x43],
        transmitted (line.handshake 4) [0x44],transmitted (line.handshake 5) [0x45]]) := by
  unfold handshake
  rw [exec_serialWrite_bind _ _ _ _ ready]
  by_cases silent : line.reply = []
  · simp [silent]
  · have some_reply : line.reply.length > 0 := List.length_pos_iff.mpr silent
    simp [some_reply,silent,exec_serialWrite_bind,exec_serialWrite _ _ _ target,ready,sent_sent,Except.map]

private theorem opened_of_open (w : World) (sp : Serial) (object : w.ctx.sp = some sp) (state : sp.isOpen = true) :
    opened w = w := by
  obtain ⟨ctx,wire,printed,reads⟩ := w
  obtain ⟨port,isOpen⟩ := sp
  cases ctx
  cases object
  cases state
  rfl

theorem exec_init (line : Line) (w : World) :
    exec (init line) w =
      if NoLine w.ctx then (.ok false,w)
      else if MustOpen w.ctx ∧ line.opens = false then (.error .openFailed,w)
      else if line.control = false then (.error .controlFailed,opened w)
      else exec (handshake line) (opened w) := by
  cases object : w.ctx.sp with
  | none =>
    have must : MustOpen w.ctx := by simp [MustOpen,object]
    by_cases unset : w.ctx.port = []
    · simp [init,acquire,exec_bind,NoLine,object,unset]
    · cases opens : line.opens with
      | false => simp [init,acquire,exec_bind,NoLine,object,unset,must,opens]
      | true =>
        cases control : line.control <;>
          simp [init,acquire,reopen,setControl,exec_bind,NoLine,object,unset,opens,control,opened,device]
  | some sp =>
    cases state : sp.isOpen with
    | true =>
      have kept : opened w = w := opened_of_open w sp object state
      have ready : ¬MustOpen w.ctx := by simp [MustOpen,object,state]
      cases control : line.control <;>
        simp [init,acquire,reopen,setControl,exec_bind,NoLine,object,state,control,kept,ready]
    | false =>
      have must : MustOpen w.ctx := by simp [MustOpen,object,state]
      cases opens : line.opens with
      | false => simp [init,acquire,reopen,exec_bind,NoLine,object,state,must,opens]
      | true =>
        cases control : line.control <;>
          simp [init,acquire,reopen,setControl,exec_bind,NoLine,object,state,opens,control,opened,device]

theorem exec_init_noLine (line : Line) (w : World) (noLine : NoLine w.ctx) : exec (init line) w = (.ok false,w) := by
  rw [exec_init,if_pos noLine]

theorem exec_init_notOpened (line : Line) (w : World) (usable : ¬NoLine w.ctx) (must : MustOpen w.ctx)
    (refused : line.opens = false) : exec (init line) w = (.error .openFailed,w) := by
  rw [exec_init,if_neg usable,if_pos ⟨must,refused⟩]

theorem exec_init_notControlled (line : Line) (w : World) (usable : ¬NoLine w.ctx) (opens : line.opens = true)
    (refused : line.control = false) : exec (init line) w = (.error .controlFailed,opened w) := by
  rw [exec_init,if_neg usable,if_neg (by simp [opens]),if_pos refused]

theorem bitIndex_eq (ctx : LMBCTX) (six : ctx.SixSlots) (pos : Int32) (slot : ctx.InRange pos) :
    (bitIndex pos : Int) = pos.toInt - 1 ∧ bitIndex pos < 6 := by
  obtain ⟨low,high⟩ := slot
  rw [six.messages] at high
  change pos.toInt ≤ 6 at high
  have difference : (pos - 1).toInt = pos.toInt - 1 := by
    rw [Int32.toInt_sub]
    change (pos.toInt - 1).bmod (2^32) = pos.toInt - 1
    exact Int.bmod_eq_of_le (by omega) (by omega)
  rw [bitIndex,difference]
  omega

private theorem bitIndex_zero : bitIndex 0 = 2^64 - 1 := by decide

def recorded (w : World) (pos : Int32) (message : Bytes) : World :=
  {w with ctx := {w.ctx with
    displayedmsgs := Function.update w.ctx.displayedmsgs pos (some message)
    msgdisplay := w.ctx.msgdisplay.set (bitIndex pos) (decide (message.length > 0))}}

@[simp] theorem recorded_wire (w : World) (pos : Int32) (message : Bytes) : (recorded w pos message).wire = w.wire := rfl

theorem exec_setMessage_rejected (line : Line) (w : World) (pos : Int32) (message : Bytes)
    (rejected : w.ctx.messages < pos.toUInt32) : exec (setMessage line pos message) w = (.ok false,w) := by
  simp [setMessage,exec_bind,rejected]

theorem exec_setMessage_zero (line : Line) (w : World) (message : Bytes) (six : w.ctx.SixSlots) :
    exec (setMessage line 0 message) w =
      (.error .bitsetIndex,{w with ctx := {w.ctx with
        displayedmsgs := Function.update w.ctx.displayedmsgs 0 (some (trim message))}}) := by
  have passed : ¬w.ctx.messages < (0 : Int32).toUInt32 := by rw [six.messages]; decide
  by_cases empty : trim message = []
  · simp [setMessage,exec_bind,passed,empty,assignMessage,assignBit,six.msgdisplay,bitIndex_zero]
  · have some_text : (trim message).length > 0 := List.length_pos_iff.mpr empty
    simp [setMessage,exec_bind,passed,some_text,assignMessage,assignBit,six.msgdisplay,bitIndex_zero]

/-- What `setMessage` sends for a slot once the text is stored. -/
def transmit (line : Line) (pos : Int32) (message : Bytes) : DriverM Bool := do
  if message.length > 0 then sendFrames line pos (escape message)
  sendMask line
  return true

private theorem exec_setMessage_inRange (line : Line) (w : World) (pos : Int32) (message : Bytes) (six : w.ctx.SixSlots)
    (slot : w.ctx.InRange pos) :
    exec (setMessage line pos message) w = exec (transmit line pos (trim message)) (recorded w pos (trim message)) := by
  have passed : ¬w.ctx.messages < pos.toUInt32 := fun low => ((guard_iff w.ctx six pos).mp low).1 slot
  have inside := (bitIndex_eq w.ctx six pos slot).2
  by_cases empty : trim message = []
  · simp [setMessage,transmit,exec_bind,passed,empty,assignMessage,assignBit,six.msgdisplay,inside,recorded]
  · have some_text : (trim message).length > 0 := List.length_pos_iff.mpr empty
    simp [setMessage,transmit,exec_bind,passed,some_text,assignMessage,assignBit,six.msgdisplay,inside,recorded]

def maskFrame (ctx : LMBCTX) : Bytes := [0x02,0x33,UInt8.ofNat (toUlong ctx.msgdisplay)]

def chunks (line : Line) (pos : Int32) (message : Bytes) (mask : Bytes) : List Bytes :=
  (if message.length > 0 then
    (messageFrames (posByte pos) (escape message)).mapIdx fun i frame => transmitted (line.frames i) frame
  else []) ++ [transmitted (line.frames 4) mask]

private theorem exec_sendFrames (line : Line) (w : World) (pos : Int32) (message : Bytes) (target : Bytes)
    (ready : w.ctx.sp = some ⟨target,true⟩) (size_t : message.length < 2^64) :
    exec (sendFrames line pos message) w = (.ok (),sent w target
      ((messageFrames (posByte pos) message).mapIdx fun i frame => transmitted (line.frames i) frame)) := by
  simp [sendFrames,exec_bind,dataFrame1 _ message size_t,dataFrame2 _ message size_t,dataFrame3 _ message size_t,
    dataFrame4 _ message size_t,exec_serialWrite _ _ _ target,ready,sent_sent,messageFrames]

private theorem exec_sendMask (line : Line) (w : World) (target : Bytes) (ready : w.ctx.sp = some ⟨target,true⟩) :
    exec (sendMask line) w = (.ok (),sent w target [transmitted (line.frames 4) (maskFrame w.ctx)]) := by
  simp [sendMask,exec_bind,exec_serialWrite _ _ _ target,ready,maskFrame]

private theorem exec_transmit (line : Line) (w : World) (pos : Int32) (message : Bytes) (target : Bytes)
    (ready : w.ctx.sp = some ⟨target,true⟩) (size_t : message.length < 2^64) :
    exec (transmit line pos message) w =
      (.ok true,sent w target (chunks line pos message (maskFrame w.ctx))) := by
  have escaped : (escape message).length < 2^64 := by rw [escape_length]; exact size_t
  by_cases empty : message.length > 0
  · simp [transmit,exec_bind,empty,exec_sendFrames line w pos (escape message) target ready escaped,
      exec_sendMask _ _ target,ready,sent_sent,chunks,Except.map]
  · simp [transmit,empty,exec_sendMask _ _ target,ready,chunks,Except.map]

theorem exec_setMessage_open (line : Line) (w : World) (pos : Int32) (message : Bytes) (target : Bytes)
    (six : w.ctx.SixSlots) (slot : w.ctx.InRange pos) (ready : w.ctx.sp = some ⟨target,true⟩) :
    exec (setMessage line pos message) w = (.ok true,sent (recorded w pos (trim message)) target
      (chunks line pos (trim message) (maskFrame (recorded w pos (trim message)).ctx))) := by
  have bound := trim_length message
  rw [exec_setMessage_inRange line w pos message six slot]
  exact exec_transmit line _ pos (trim message) target ready (by omega)

theorem exec_startUp (w : World) : exec startUp w = (.ok true,w) := rfl

theorem exec_fini (w : World) (target : Bytes) (state : Bool) (object : w.ctx.sp = some ⟨target,state⟩) :
    exec fini w = (.ok true,{w with ctx := {w.ctx with sp := some ⟨target,false⟩}}) := by
  simp [fini,exec_bind,object,Except.map]

theorem exec_fini_null (w : World) (absent : w.ctx.sp = none) : exec fini w = (.error .nullSerial,w) := by
  simp [fini,exec_bind,absent]

private theorem exec_init_answers (line : Line) (w : World) (answers : line.Answers) (usable : ¬NoLine w.ctx) :
    exec (init line) w = (.ok true,sent (opened w) (device w.ctx) [[0x54],[0x41],[0x42],[0x43],[0x44],[0x45]]) := by
  rw [exec_init,if_neg usable,if_neg (by simp [answers.opens]),if_neg (by simp [answers.control]),
    exec_handshake line _ (device w.ctx) rfl,if_neg answers.reply]
  simp [answers.handshake,transmitted]

def deliveredCtx (ctx : LMBCTX) (pos : Int32) (message : Bytes) : LMBCTX :=
  {ctx with
    sp := some ⟨device ctx,false⟩
    displayedmsgs := Function.update ctx.displayedmsgs pos (some (trim message))
    msgdisplay := ctx.msgdisplay.set (bitIndex pos) (decide ((trim message).length > 0))}

def deliveredBytes (ctx : LMBCTX) (pos : Int32) (message : Bytes) : Bytes :=
  (if (trim message).length > 0 then (messageFrames (posByte pos) (escape (trim message))).flatten else []) ++
    maskFrame (deliveredCtx ctx pos message)

theorem exec_deliver_answers (line : Line) (w : World) (pos : Int32) (message : Bytes) (answers : line.Answers)
    (usable : ¬NoLine w.ctx) (six : w.ctx.SixSlots) (slot : w.ctx.InRange pos) :
    ∃ final, exec (deliver line pos message) w = (.ok (),final) ∧ final.ctx = deliveredCtx w.ctx pos message ∧
      (∃ added : List Bytes, final.wire = w.wire ++ added.map (fun bytes => ⟨device w.ctx,bytes⟩) ∧
        added.flatten = [0x54,0x41,0x42,0x43,0x44,0x45] ++ deliveredBytes w.ctx pos message) := by
  let started := sent (opened w) (device w.ctx) [[0x54],[0x41],[0x42],[0x43],[0x44],[0x45]]
  have initial := exec_discard_ok (exec_init_answers line w answers usable)
  have sending := exec_discard_ok (exec_setMessage_open line started pos message (device w.ctx)
    ⟨six.messages,six.msgdisplay⟩ slot rfl)
  unfold deliver operate
  rw [exec_bind_ok initial,exec_bind_ok (exec_pure _ _),exec_bind_ok sending,exec_discard_ok (exec_fini _ (device w.ctx) true rfl)]
  refine ⟨_,rfl,rfl,[[0x54],[0x41],[0x42],[0x43],[0x44],[0x45]] ++
    chunks line pos (trim message) (maskFrame (recorded started pos (trim message)).ctx),?_,?_⟩
  · simp only [sent_wire,recorded_wire,opened_wire,started,List.append_assoc,← List.map_append]
  · rw [List.flatten_append]
    congr 1
    unfold chunks deliveredBytes maskFrame
    split <;> simp [answers.frames,transmitted,messageFrames,started,recorded,deliveredCtx,opened]

end LEDMessageBoard.Driver
