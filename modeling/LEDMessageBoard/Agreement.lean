import LEDMessageBoard.Board
import LEDMessageBoard.Semantics.Display

/-! The daemon and the board agree after every delivery. The two are connected by the
byte stream of the serial line only. -/
namespace LEDMessageBoard.Agreement
open General General.Program General.Stream LEDMessageBoard.Frame Escape Driver Encoding Semantics

structure Operation where
  line : Line
  pos : Int32
  message : Bytes

def Operation.program (operation : Operation) : DriverM Unit :=
  deliver operation.line operation.pos operation.message

def stream (target : Bytes) (wire : List Transmission) : Bytes :=
  ((wire.filter fun sent => sent.device = target).map Transmission.bytes).flatten

def slotNumber (pos : Int32) : Nat := pos.toInt.toNat

/-- `msgdisplay[pos-1]` -/
def slotBit (ctx : LMBCTX) (pos : Int32) : Bool := ctx.msgdisplay.getD (slotNumber pos - 1) false

theorem stream_append (target : Bytes) (wire : List Transmission) (added : List Bytes) :
    stream target (wire ++ added.map fun bytes => ⟨target,bytes⟩) = stream target wire ++ added.flatten := by
  have all : (added.map fun bytes => (⟨target,bytes⟩ : Transmission)).filter (fun sent => sent.device = target) =
      added.map fun bytes => ⟨target,bytes⟩ := List.filter_eq_self.mpr (by simp)
  rw [stream,List.filter_append,all]
  simp [stream,Function.comp_def]

private theorem toUlong_testBit (bits : List Bool) (i : Nat) : (toUlong bits).testBit i = bits.getD i false := by
  induction bits generalizing i with
  | nil => simp [toUlong]
  | cons bit bits ih =>
    have unfolded : toUlong (bit :: bits) = bit.toNat + 2 * toUlong bits := rfl
    rw [unfolded]
    cases i with
    | zero => cases bit <;> simp [Nat.testBit_zero]
    | succ i =>
      have half : (bit.toNat + 2 * toUlong bits) / 2 = toUlong bits := by
        have := Bool.toNat_le bit
        omega
      rw [Nat.testBit_succ,half,ih,List.getD_cons_succ]

private theorem toUlong_lt (bits : List Bool) : toUlong bits < 2^bits.length := by
  induction bits with
  | nil => simp [toUlong]
  | cons bit bits ih =>
    have unfolded : toUlong (bit :: bits) = bit.toNat + 2 * toUlong bits := rfl
    have := Bool.toNat_le bit
    rw [unfolded,List.length_cons,Nat.pow_succ]
    omega

/-- Six bits fit into the mask byte. -/
theorem mask_testBit (ctx : LMBCTX) (six : ctx.SixSlots) (i : Nat) :
    (UInt8.ofNat (toUlong ctx.msgdisplay)).toNat.testBit i = ctx.msgdisplay.getD i false := by
  have bound := toUlong_lt ctx.msgdisplay
  rw [six.msgdisplay] at bound
  rw [UInt8.toNat_ofNat',Nat.mod_eq_of_lt (by omega),toUlong_testBit]

/-- What ties the board to the context between two deliveries. -/
structure Linked (target : Bytes) (ctx : LMBCTX) (board : Board) : Prop where
  usable : ¬NoLine ctx
  device : device ctx = target
  six : ctx.SixSlots
  synchronised : board.phase = .idle
  bits : ∀ pos, ctx.InRange pos → (slotBit ctx pos = true ↔ ∃ m, ctx.displayedmsgs pos = some m ∧ m ≠ [])
  texts : ∀ pos, ctx.InRange pos → slotBit ctx pos = true → ∃ m, ctx.displayedmsgs pos = some m ∧
    m.length ≤ 250 ∧ board.decoded (slotNumber pos) = some (escape m)

def MaskAgrees (ctx : LMBCTX) (board : Board) : Prop :=
  ∀ i, board.mask.toNat.testBit i = ctx.msgdisplay.getD i false

structure OthersKept (pos : Int32) (before after : LMBCTX) (old new : Board) : Prop where
  texts : ∀ other, other ≠ pos → after.displayedmsgs other = before.displayedmsgs other
  bits : ∀ i, i + 1 ≠ slotNumber pos → after.msgdisplay.getD i false = before.msgdisplay.getD i false
  memory : ∀ slot, slot ≠ slotNumber pos → new.memory slot = old.memory slot

private theorem slot_number (ctx : LMBCTX) (six : ctx.SixSlots) (pos : Int32) (slot : ctx.InRange pos) :
    bitIndex pos + 1 = slotNumber pos ∧ bitIndex pos < ctx.msgdisplay.length := by
  obtain ⟨index,bound⟩ := bitIndex_eq ctx six pos slot
  rw [six.msgdisplay,slotNumber]
  omega

private theorem delivered_bit (ctx : LMBCTX) (six : ctx.SixSlots) (pos : Int32) (slot : ctx.InRange pos) (message : Bytes) :
    slotBit (deliveredCtx ctx pos message) pos = decide ((trim message).length > 0) := by
  obtain ⟨number,inside⟩ := slot_number ctx six pos slot
  have index : slotNumber pos - 1 = bitIndex pos := by omega
  simp [slotBit,index,deliveredCtx,inside]

private theorem delivered_other_bit (ctx : LMBCTX) (pos : Int32) (message : Bytes) (i : Nat) (other : i ≠ bitIndex pos) :
    (deliveredCtx ctx pos message).msgdisplay.getD i false = ctx.msgdisplay.getD i false := by
  simp [deliveredCtx,List.getElem?_set_ne (Ne.symm other)]

private theorem delivered_other_slot (ctx : LMBCTX) (six : ctx.SixSlots) (pos other : Int32) (slot : ctx.InRange pos)
    (inside : ctx.InRange other) (message : Bytes) (different : other ≠ pos) :
    slotBit (deliveredCtx ctx pos message) other = slotBit ctx other ∧ slotNumber other ≠ slotNumber pos := by
  have apart : slotNumber other ≠ slotNumber pos := by
    intro same
    apply different
    rw [← Int32.toInt_inj]
    have low := slot.1
    have other_low := inside.1
    unfold slotNumber at same
    omega
  obtain ⟨number,_⟩ := slot_number ctx six pos slot
  obtain ⟨other_number,_⟩ := slot_number ctx six other inside
  exact ⟨delivered_other_bit ctx pos message _ (by omega),apart⟩

private theorem consume_delivered (ctx : LMBCTX) (six : ctx.SixSlots) (pos : Int32) (slot : ctx.InRange pos)
    (message : Bytes) (board : Board) (idle : board.phase = .idle) :
    ∃ after, consume Board.step board ([0x54,0x41,0x42,0x43,0x44,0x45] ++ deliveredBytes ctx pos message) = after ∧
      after.phase = .idle ∧ after.mask = UInt8.ofNat (toUlong (deliveredCtx ctx pos message).msgdisplay) ∧
      (0 < (trim message).length → (List.range 4).map (after.memory (slotNumber pos)) = textBlocks (escape (trim message))) ∧
      ∀ other, other ≠ slotNumber pos → after.memory other = board.memory other := by
  have number : (5 + posByte pos).toNat = slotNumber pos + 5 := by
    have signed := posByte_toNat ctx six pos slot
    have low := slot.1
    rw [slotNumber]
    omega
  have started : consume Board.step board [0x54,0x41,0x42,0x43,0x44,0x45] = board := Board.consume_handshake board idle
  rw [consume_append,started,deliveredBytes,consume_append]
  split
  next some_text =>
    obtain ⟨middle,parsed,ready,_,stored,others⟩ :=
      Board.consume_messageFrames board idle (posByte pos) (slotNumber pos) number (escape (trim message))
    rw [parsed,maskFrame,Board.consume_mask middle ready]
    exact ⟨_,rfl,ready,rfl,fun _ => stored,others⟩
  next no_text =>
    change ∃ after, consume Board.step board (maskFrame (deliveredCtx ctx pos message)) = after ∧ _
    rw [maskFrame,Board.consume_mask board idle]
    exact ⟨_,rfl,idle,rfl,fun some_text => absurd some_text no_text,fun _ _ => rfl⟩

/-- The board that has read a delivery is linked to the context that the delivery leaves. -/
theorem Linked.delivered {target : Bytes} {ctx : LMBCTX} {board new : Board} (linked : Linked target ctx board) (pos : Int32)
    (slot : ctx.InRange pos) (message : Bytes) (idle : new.phase = .idle)
    (stored : 0 < (trim message).length → (List.range 4).map (new.memory (slotNumber pos)) = textBlocks (escape (trim message)))
    (others : ∀ other, other ≠ slotNumber pos → new.memory other = board.memory other) :
    Linked target (deliveredCtx ctx pos message) new := by
  have six : (deliveredCtx ctx pos message).SixSlots :=
    ⟨linked.six.messages,(List.length_set ..).trans linked.six.msgdisplay⟩
  refine ⟨by simp [NoLine,deliveredCtx],linked.device,six,idle,?_,?_⟩
  · intro other inside
    by_cases same : other = pos
    · subst same
      rw [delivered_bit ctx linked.six other slot message]
      simp [deliveredCtx,List.length_pos_iff]
    · rw [(delivered_other_slot ctx linked.six pos other slot inside message same).1]
      simpa [deliveredCtx,Function.update_of_ne same] using linked.bits other inside
  · intro other inside shown
    by_cases same : other = pos
    · subst same
      rw [delivered_bit ctx linked.six other slot message] at shown
      have blocks := stored (of_decide_eq_true shown)
      have fits : (escape (trim message)).length ≤ 252 := by
        rw [escape_length]
        exact Nat.le_trans (trim_length message) (by decide)
      refine ⟨trim message,by simp [deliveredCtx],trim_length message,?_⟩
      rw [Board.decoded]
      rw [blocks,decode_textBlocks _ fits]
    · obtain ⟨bit,apart⟩ := delivered_other_slot ctx linked.six pos other slot inside message same
      obtain ⟨text,found,short,shows⟩ := linked.texts other inside (bit ▸ shown)
      refine ⟨text,by simpa [deliveredCtx,Function.update_of_ne same] using found,short,?_⟩
      rw [← shows,Board.decoded,Board.decoded]
      rw [others _ apart]

/-- One delivery keeps the two sides linked and changes its own slot only. -/
theorem deliver_linked (target : Bytes) (w : World) (board : Board) (linked : Linked target w.ctx board)
    (operation : Operation) (answers : operation.line.Answers) (slot : w.ctx.InRange operation.pos) :
    ∃ after added, exec operation.program w = (.ok (),after) ∧
      stream target after.wire = stream target w.wire ++ added ∧
      after.ctx = deliveredCtx w.ctx operation.pos operation.message ∧
      Linked target after.ctx (consume Board.step board added) ∧ MaskAgrees after.ctx (consume Board.step board added) ∧
      OthersKept operation.pos w.ctx after.ctx board (consume Board.step board added) := by
  obtain ⟨line,pos,message⟩ := operation
  obtain ⟨after,ran,host,writes,sent,bytes⟩ :=
    exec_deliver_answers line w pos message answers linked.usable linked.six slot
  rw [linked.device] at sent
  obtain ⟨new,parsed,idle,mask,stored,others⟩ :=
    consume_delivered w.ctx linked.six pos slot message board linked.synchronised
  have delivered := linked.delivered pos slot message idle stored others
  refine ⟨after,_,ran,by rw [sent,stream_append,bytes],host,?_,?_,?_⟩
  · rw [parsed,host]
    exact delivered
  · intro i
    rw [parsed,host,mask,mask_testBit _ delivered.six]
  · rw [parsed,host]
    obtain ⟨number,_⟩ := slot_number w.ctx linked.six pos slot
    refine ⟨fun other different => Function.update_of_ne different ..,?_,others⟩
    intro i different
    change i + 1 ≠ slotNumber pos at different
    exact delivered_other_bit w.ctx pos message i (by omega)

def shown (ctx : LMBCTX) (pos : Int32) : Option Bytes :=
  if slotBit ctx pos then (ctx.displayedmsgs pos).map escape else none

def Board.shows (board : Board) (slot : Nat) : Option Bytes :=
  if board.mask.toNat.testBit (slot - 1) then board.decoded slot else none

def Operation.request (operation : Operation) : Int32 × Option Bytes :=
  (operation.pos,if (trim operation.message).length > 0 then some (escape (trim operation.message)) else none)

theorem linked_shows (target : Bytes) (ctx : LMBCTX) (board : Board) (linked : Linked target ctx board)
    (mask : MaskAgrees ctx board) (pos : Int32) (slot : ctx.InRange pos) :
    Board.shows board (slotNumber pos) = shown ctx pos := by
  have bit : board.mask.toNat.testBit (slotNumber pos - 1) = slotBit ctx pos := mask _
  rw [Board.shows,shown,bit]
  split
  next set =>
    obtain ⟨text,found,_,shows⟩ := linked.texts pos slot set
    rw [shows,found,Option.map_some]
  next => rfl

theorem delivered_shown (ctx : LMBCTX) (six : ctx.SixSlots) (operation : Operation) (slot : ctx.InRange operation.pos)
    (pos : Int32) (inside : ctx.InRange pos) :
    shown (deliveredCtx ctx operation.pos operation.message) pos =
      Display.request (shown ctx) operation.request pos := by
  by_cases same : pos = operation.pos
  · subst same
    rw [shown,delivered_bit ctx six operation.pos slot operation.message]
    simp [deliveredCtx,Display.request,Operation.request]
  · rw [Display.request_other (shown ctx) operation.request pos same,shown,
      (delivered_other_slot ctx six operation.pos pos slot inside operation.message same).1]
    simp [deliveredCtx,Function.update_of_ne same,shown]

/-- A run of deliveries never loses the synchronisation, stays linked, and is a run of
the requests on the display. -/
theorem deliveries_linked (target : Bytes) (operations : List Operation) (w : World) (board : Board)
    (linked : Linked target w.ctx board) (answers : ∀ operation ∈ operations, operation.line.Answers)
    (slots : ∀ operation ∈ operations, w.ctx.InRange operation.pos) :
    ∃ after added, exec (inSequence (operations.map Operation.program)) w = (.ok (),after) ∧
      stream target after.wire = stream target w.wire ++ added ∧
      Linked target after.ctx (consume Board.step board added) ∧ after.ctx.messages = w.ctx.messages ∧
      ∀ pos, w.ctx.InRange pos →
        shown after.ctx pos = Display.run (shown w.ctx) (operations.map Operation.request) pos := by
  induction operations generalizing w board with
  | nil => exact ⟨w,[],rfl,by simp,linked,rfl,fun _ _ => rfl⟩
  | cons operation rest ih =>
    obtain ⟨middle,first,ran,wire,host,next,_,_⟩ :=
      deliver_linked target w board linked operation (answers operation (by simp)) (slots operation (by simp))
    have messages : middle.ctx.messages = w.ctx.messages := next.six.messages.trans linked.six.messages.symm
    have range (pos : Int32) : middle.ctx.InRange pos ↔ w.ctx.InRange pos := by
      rw [LMBCTX.InRange,LMBCTX.InRange,messages]
    obtain ⟨after,second,rest_ran,rest_wire,last,same,display⟩ := ih middle (consume Board.step board first) next
      (fun other member => answers other (by simp [member]))
      (fun other member => (range other.pos).mpr (slots other (by simp [member])))
    refine ⟨after,first ++ second,?_,?_,?_,same.trans messages,?_⟩
    · rw [List.map_cons,inSequence,exec_bind_ok ran,rest_ran]
    · rw [rest_wire,wire,List.append_assoc]
    · rw [consume_append]
      exact last
    · intro pos inside
      rw [display pos ((range pos).mpr inside),List.map_cons]
      apply Display.run_congr
      rw [host]
      exact delivered_shown w.ctx linked.six operation (slots operation (by simp)) pos inside

/-- Before the first delivery nothing is displayed. -/
structure Fresh (ctx : LMBCTX) : Prop where
  six : ctx.SixSlots
  usable : ¬NoLine ctx
  bits : ctx.msgdisplay = List.replicate 6 false
  texts : ∀ pos, ctx.displayedmsgs pos = none

theorem fresh_dark (ctx : LMBCTX) (fresh : Fresh ctx) (pos : Int32) : slotBit ctx pos = false := by
  rw [slotBit,fresh.bits,List.getD_eq_getElem?_getD,List.getElem?_replicate]
  split <;> rfl

theorem fresh_linked (ctx : LMBCTX) (fresh : Fresh ctx) (board : Board) (idle : board.phase = .idle) :
    Linked (device ctx) ctx board := by
  refine ⟨fresh.usable,rfl,fresh.six,idle,?_,?_⟩
  · intro pos _
    simp [fresh_dark ctx fresh,fresh.texts]
  · intro pos _ shown
    rw [fresh_dark ctx fresh] at shown
    contradiction

/-- After every delivery of every run, with the board reading the whole stream from the
start: board and daemon show the same, and only the slot that was set has changed. -/
theorem deliveries_agree (ctx : LMBCTX) (board : Board) (fresh : Fresh ctx) (idle : board.phase = .idle)
    (operations : List Operation) (last : Operation) (answers : ∀ operation ∈ operations ++ [last], operation.line.Answers)
    (slots : ∀ operation ∈ operations ++ [last], ctx.InRange operation.pos) :
    ∃ before after, exec (inSequence (operations.map Operation.program)) (.start ctx) = (.ok (),before) ∧
      exec last.program before = (.ok (),after) ∧
      let old := consume Board.step board (stream (device ctx) before.wire)
      let new := consume Board.step board (stream (device ctx) after.wire)
      Linked (device ctx) after.ctx new ∧ MaskAgrees after.ctx new ∧
        OthersKept last.pos before.ctx after.ctx old new := by
  obtain ⟨before,first,ran,wire,linked,messages,_⟩ := deliveries_linked (device ctx) operations (.start ctx) board
    (fresh_linked ctx fresh board idle) (fun other member => answers other (by simp [member]))
    (fun other member => slots other (by simp [member]))
  have slot : before.ctx.InRange last.pos := by
    rw [LMBCTX.InRange,messages]
    exact slots last (by simp)
  obtain ⟨after,second,last_ran,last_wire,agree⟩ := deliver_linked (device ctx) before _ linked last
    (answers last (by simp)) slot
  have begun : stream (device ctx) before.wire = first := by
    rw [wire]
    rfl
  refine ⟨before,after,ran,last_ran,?_⟩
  rw [last_wire,begun,consume_append]
  exact agree.2

theorem deliveries_agree_cleared :
    ∃ before after,
      exec (inSequence ([⟨.answering,1,text "A~Hb"⟩,⟨.answering,6,text "B"⟩].map Operation.program))
        (.start (mainDefaults false)) = (.ok (),before) ∧
      exec (Operation.program ⟨.answering,1,[]⟩) before = (.ok (),after) ∧
      let old := consume Board.step ⟨.idle,fun _ _ => [],0⟩ (stream (text "/dev/ttyUSB0") before.wire)
      let new := consume Board.step ⟨.idle,fun _ _ => [],0⟩ (stream (text "/dev/ttyUSB0") after.wire)
      Linked (text "/dev/ttyUSB0") after.ctx new ∧ MaskAgrees after.ctx new ∧ OthersKept 1 before.ctx after.ctx old new :=
  deliveries_agree (mainDefaults false) ⟨.idle,fun _ _ => [],0⟩ ⟨⟨rfl,rfl⟩,by decide,rfl,fun _ => rfl⟩ rfl
    [⟨.answering,1,text "A~Hb"⟩,⟨.answering,6,text "B"⟩] ⟨.answering,1,[]⟩
    (by
      intro operation member
      have line : operation.line = .answering := by
        simp only [List.cons_append,List.nil_append,List.mem_cons,List.not_mem_nil,or_false] at member
        rcases member with rfl | rfl | rfl <;> rfl
      rw [line]
      exact Line.answering_answers)
    (by
      simp only [List.cons_append,List.nil_append,List.forall_mem_cons,List.not_mem_nil,false_imp_iff,implies_true,and_true]
      decide)

end LEDMessageBoard.Agreement
