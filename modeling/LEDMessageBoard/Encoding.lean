import LEDMessageBoard.DriverRuns

/-! The frames of a message in the board's documented format, and the receiver that
reads a text back from them. -/
namespace LEDMessageBoard.Encoding
open General General.Program General.Blocks LEDMessageBoard.Frame Escape Driver

/-- A data frame of the protocol: command, program, memory position, start position
and the sum over all bytes between the first and the last. -/
structure IsDataFrame (pos : Int32) (address : UInt8) (frame : Bytes) : Prop where
  size : frame.length = 69
  command : frame[0]? = some 0x02
  program : frame[1]? = some 0x31
  memory : ∃ byte, frame[2]? = some byte ∧ (byte.toNat : Int) = pos.toInt + 5
  start : frame[3]? = some address
  checksum : ∃ byte, frame[68]? = some byte ∧ byte.toNat = (((frame.drop 1).take 67).map UInt8.toNat).sum % 256

def block (frame : Bytes) : Bytes := (frame.drop 4).take 64

/-- The text bytes of four blocks; the first begins with four bytes about the text. -/
def payload (blocks : List Bytes) : Bytes := blocks.flatten.drop 4

/-- The receiver: the length byte and that many bytes of the payload. -/
def decode (blocks : List Bytes) : Option Bytes :=
  (blocks.flatten[3]?).map fun length => (payload blocks).take length.toNat

def textBlocks (message : Bytes) : List Bytes :=
  [[0x35,0x00,0x42,UInt8.ofNat message.length] ++ padded 0 60 message,padded 0 64 (message.drop 60),
    padded 0 64 (message.drop 124),padded 0 64 (message.drop 188)]

theorem posByte_toNat (ctx : LMBCTX) (six : ctx.SixSlots) (pos : Int32) (slot : ctx.InRange pos) :
    ((5 + posByte pos).toNat : Int) = pos.toInt + 5 := by
  obtain ⟨low,high⟩ := slot
  rw [six.messages] at high
  change pos.toInt ≤ 6 at high
  have signed := toUInt32_toNat pos
  rw [if_neg (by omega)] at signed
  have narrow : (posByte pos).toNat = pos.toUInt32.toNat % 256 := UInt32.toNat_toUInt8 _
  rw [UInt8.toNat_add]
  change (((5 + (posByte pos).toNat) % 256 : Nat) : Int) = _
  omega

theorem messageFrames_eq (pos : UInt8) (message : Bytes) :
    messageFrames pos message = ([0x00,0x40,0x80,0xC0].zip (textBlocks message)).map fun part =>
      [0x02,0x31,5 + pos,part.1] ++ part.2 ++ [([0x31,5 + pos,part.1] ++ part.2).foldl (· + ·) 0] := by
  simp [messageFrames,frameBytes,body,filled,placement,textBlocks]

theorem textBlocks_sizes (message : Bytes) : ∀ block ∈ textBlocks message, block.length = 64 := by
  simp [textBlocks]

private theorem isDataFrame (ctx : LMBCTX) (six : ctx.SixSlots) (pos : Int32) (slot : ctx.InRange pos) (address : UInt8)
    (rest : Bytes) (size : rest.length = 64) :
    IsDataFrame pos address ([0x02,0x31,5 + posByte pos,address] ++ rest ++
      [([0x31,5 + posByte pos,address] ++ rest).foldl (· + ·) 0]) where
  size := by simp [size]
  command := rfl
  program := rfl
  memory := ⟨_,rfl,posByte_toNat ctx six pos slot⟩
  start := rfl
  checksum := by
    refine ⟨_,List.getElem?_append_right (by simp [size]) |>.trans (by simp [size]; rfl),?_⟩
    rw [sum_bytes]
    simp [size]
    omega

theorem block_frame (pos address : UInt8) (rest : Bytes) (sum : UInt8) (size : rest.length = 64) :
    block ([0x02,0x31,pos,address] ++ rest ++ [sum]) = rest := by
  simp [block,← size]

/-- The four blocks hold the text and zeros behind it: no byte is lost, doubled or
moved where one block ends and the next begins. -/
theorem payload_textBlocks (message : Bytes) (fits : message.length ≤ 252) :
    payload (textBlocks message) = message ++ List.replicate (252 - message.length) 0 := by
  have cut : payload (textBlocks message) = padded 0 60 message ++ (padded 0 64 (message.drop 60) ++
      (padded 0 64 (message.drop 124) ++ padded 0 64 (message.drop 188))) := by
    simp [payload,textBlocks]
  have fourth : message.drop 188 = (message.drop 124).drop 64 := by rw [List.drop_drop]
  have third : message.drop 124 = (message.drop 60).drop 64 := by rw [List.drop_drop]
  rw [cut,fourth,padded_append,third,padded_append,padded_append,padded_of_fits 0 _ message fits]

theorem decode_textBlocks (message : Bytes) (fits : message.length ≤ 252) :
    decode (textBlocks message) = some message := by
  have length : (UInt8.ofNat message.length).toNat = message.length := by
    rw [UInt8.toNat_ofNat']
    omega
  have third : (textBlocks message).flatten[3]? = some (UInt8.ofNat message.length) := rfl
  rw [decode,third,payload_textBlocks message fits,Option.map_some,length,List.take_left]

def textBytes (f1 f2 f3 f4 : Bytes) : Bytes :=
  (f1.drop 8).take 60 ++ (f2.drop 4).take 64 ++ (f3.drop 4).take 64 ++ (f4.drop 4).take 64

structure Encodes (pos : Int32) (t f1 f2 f3 f4 : Bytes) : Prop where
  frame1 : IsDataFrame pos 0x00 f1
  frame2 : IsDataFrame pos 0x40 f2
  frame3 : IsDataFrame pos 0x80 f3
  frame4 : IsDataFrame pos 0xC0 f4
  settings : (f1.drop 4).take 3 = [0x35,0x00,0x42]
  length : ∃ byte, f1[7]? = some byte ∧ byte.toNat = t.length
  text : textBytes f1 f2 f3 f4 = t ++ List.replicate (252 - t.length) 0

theorem Encodes.recovered {pos : Int32} {t f1 f2 f3 f4 : Bytes} (encodes : Encodes pos t f1 f2 f3 f4) :
    (f1[7]?).map (fun length => (textBytes f1 f2 f3 f4).take length.toNat) = some t := by
  obtain ⟨byte,found,size⟩ := encodes.length
  rw [found,Option.map_some,size,encodes.text,List.take_left]

private theorem messageFrames_encode (ctx : LMBCTX) (six : ctx.SixSlots) (pos : Int32) (slot : ctx.InRange pos)
    (t : Bytes) (fits : t.length ≤ 252) :
    ∃ f1 f2 f3 f4, messageFrames (posByte pos) t = [f1,f2,f3,f4] ∧ Encodes pos t f1 f2 f3 f4 := by
  have frame := isDataFrame ctx six pos slot
  have joined := payload_textBlocks t fits
  have length : (UInt8.ofNat t.length).toNat = t.length := by
    rw [UInt8.toNat_ofNat']
    omega
  refine ⟨_,_,_,_,messageFrames_eq _ _,frame 0x00 _ (by simp),frame 0x40 _ (by simp),frame 0x80 _ (by simp),
    frame 0xC0 _ (by simp),rfl,⟨_,rfl,length⟩,?_⟩
  rw [← joined]
  simp [textBytes,payload,textBlocks]

/-- For every slot and every text that is not empty, `setMessage` transmits four frames
that carry exactly the escaped text, and then the mask. -/
theorem setMessage_encodes (w : World) (target : Bytes) (line : Line) (pos : Int32) (message : Bytes)
    (six : w.ctx.SixSlots) (ready : w.ctx.sp = some ⟨target,true⟩) (complete : ∀ i, line.frames i = none)
    (slot : w.ctx.InRange pos) (nonempty : message ≠ []) :
    ∃ f1 f2 f3 f4 mask final, exec (setMessage line pos message) w = (.ok true,final) ∧
      final.wire = w.wire ++ [f1,f2,f3,f4,mask].map (fun bytes => ⟨target,bytes⟩) ∧
      Encodes pos (escape (trim message)) f1 f2 f3 f4 ∧
      (f1[7]?).map (fun length => (textBytes f1 f2 f3 f4).take length.toNat) = some (escape (trim message)) := by
  have bound := trim_length message
  obtain ⟨f1,f2,f3,f4,frames,encodes⟩ := messageFrames_encode w.ctx six pos slot (escape (trim message))
    (by rw [escape_length]; omega)
  have some_text : (trim message).length > 0 := by
    have := List.length_pos_iff.mpr nonempty
    rw [trim_eq,List.length_take]
    omega
  refine ⟨f1,f2,f3,f4,maskFrame (recorded w pos (trim message)).ctx,_,
    exec_setMessage_open line w pos message target six slot ready,?_,encodes,encodes.recovered⟩
  simp only [sent_wire,recorded_wire,chunks,some_text,if_true,frames]
  simp [complete,transmitted]

theorem setMessage_encodes_three :
    ∃ f1 f2 f3 f4 mask final,
      exec (setMessage .answering 3 (text "Hi!")) (.start {mainDefaults false with sp := some ⟨text "/dev/ttyUSB0",true⟩}) =
        (.ok true,final) ∧
      final.wire = [f1,f2,f3,f4,mask].map (fun bytes => ⟨text "/dev/ttyUSB0",bytes⟩) ∧
      Encodes 3 (text "Hi!") f1 f2 f3 f4 ∧
      (f1[7]?).map (fun length => (textBytes f1 f2 f3 f4).take length.toNat) = some (text "Hi!") :=
  setMessage_encodes (.start {mainDefaults false with sp := some ⟨text "/dev/ttyUSB0",true⟩}) (text "/dev/ttyUSB0")
    .answering 3 (text "Hi!") ⟨rfl,rfl⟩ rfl (fun _ => rfl) (by decide) (by decide)

end LEDMessageBoard.Encoding
