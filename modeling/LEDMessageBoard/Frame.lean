import LEDMessageBoard.Context
import LEDMessageBoard.General.Blocks

/-! The four data frames of a message, as `insertMessage`, `setMessageNumber` and
`doChkSum` fill them in. Every access of a buffer or string is checked here. -/
namespace LEDMessageBoard.Frame
open General.Blocks

def load (data : Bytes) (i : Nat) : Except Fault UInt8 :=
  match data[i]? with
  | some value => .ok value
  | none => .error .bufferIndex

def store (data : Bytes) (i : Nat) (value : UInt8) : Except Fault Bytes :=
  if i < data.length then .ok (data.set i value) else .error .bufferIndex

def messageAt (message : Bytes) (i : Nat) : Except Fault UInt8 :=
  match message[i]? with
  | some value => .ok value
  | none => .error .stringIndex

/-- The conversion of a `size_t` to `uint8_t`. -/
def uint8 (n : Nat) : Nat := n % 2^8

/-- The difference of two `size_t`. -/
def sizeSub (a b : Nat) : Nat := (((a : Int) - b) % 2^64).toNat

def chkSumLoop (data : Bytes) (indices : List Nat) : Except Fault UInt8 :=
  indices.foldlM (fun csum i => do
    let value ← load data i
    return csum + value) 0

def doChkSum (data : Bytes) (length : Nat) : Except Fault Bytes := do
  let csum ← chkSumLoop data (List.range' 1 (length - 1))
  store data (max 1 length) csum

/-- One round of the copy loop; the state is `startpos` and the buffer. -/
def copyByte (message : Bytes) (messagestart : Nat) (state : Nat × Bytes) (i : Nat) :
    Except Fault (Nat × Bytes) := do
  let value ← messageAt message (i + messagestart)
  let data ← store state.2 state.1 value
  return (uint8 (state.1 + 1),data)

structure Placement where
  startpos : Nat
  size : Nat
  messagestart : Nat

def placement (part : UInt8) : Placement :=
  if part = 1 then ⟨8,60,0⟩
  else if part = 2 then ⟨4,65,60⟩
  else if part = 3 then ⟨4,65,124⟩
  else if part = 4 then ⟨4,65,188⟩
  else ⟨4,60,0⟩

def storeLength (part : UInt8) (data message : Bytes) : Except Fault Bytes :=
  if part = 1 then store data 7 (UInt8.ofNat message.length) else .ok data

/-- `size` after it is cut to what the message has behind `messagestart`. -/
def copySize (place : Placement) (length : Nat) : Nat :=
  if sizeSub length place.messagestart < place.size then uint8 (sizeSub length place.messagestart) else place.size

def insertMessage (part : UInt8) (data message : Bytes) : Except Fault Bytes := do
  let place := placement part
  let size := copySize place message.length
  let data ← storeLength part data message
  if size > message.length then
    return data
  else if place.messagestart > message.length then
    return data
  else
    let copied ← (List.range size).foldlM (copyByte message place.messagestart) (place.startpos,data)
    return copied.2

def setMessageNumber (data : Bytes) (pos : UInt8) : Except Fault Bytes :=
  store data 2 (5 + pos)

def header1 : Bytes := [0x02,0x31,0x06,0x00,0x35,0x00,0x42,0x00] ++ List.replicate 60 0x00 ++ [0x72]
def header2 : Bytes := [0x02,0x31,0x06,0x40] ++ List.replicate 64 0x00 ++ [0x71]
def header3 : Bytes := [0x02,0x31,0x06,0x80] ++ List.replicate 64 0x00 ++ [0xB7]
def header4 : Bytes := [0x02,0x31,0x06,0xC0] ++ List.replicate 64 0x00 ++ [0xF7]

/-- One of the four frames of `setMessage`: the part's header, filled in and summed. -/
def dataFrame (part : UInt8) (header : Bytes) (pos : UInt8) (message : Bytes) : Except Fault Bytes := do
  let data ← insertMessage part header message
  let data ← setMessageNumber data pos
  doChkSum data 68

theorem store_eq (data : Bytes) (i : Nat) (value : UInt8) (inside : i < data.length) :
    store data i value = .ok (data.set i value) := if_pos inside

private theorem chkSumLoop_eq (data : Bytes) (count : Nat) (inside : 1 + count ≤ data.length) :
    chkSumLoop data (List.range' 1 count) = .ok (((data.drop 1).take count).foldl (· + ·) 0) := by
  induction count with
  | zero => rfl
  | succ count ih =>
    have present : data[1 + count]? = some data[1 + count] := List.getElem?_eq_getElem (by omega)
    have next : (data.drop 1).take (count + 1) = (data.drop 1).take count ++ [data[1 + count]] := by
      rw [List.take_add_one,List.getElem?_drop,present]
      rfl
    have earlier := ih (by omega)
    unfold chkSumLoop at earlier ⊢
    rw [List.range'_concat,List.foldlM_append,earlier,next,List.foldl_append]
    simp only [List.foldlM_cons,List.foldlM_nil,load,Nat.one_mul,present]
    rfl

theorem sum_bytes (bytes : Bytes) (initial : UInt8) :
    (bytes.foldl (· + ·) initial).toNat = (initial.toNat + (bytes.map UInt8.toNat).sum) % 256 := by
  induction bytes generalizing initial with
  | nil => exact (Nat.mod_eq_of_lt initial.toNat_lt).symm
  | cons byte bytes ih =>
    rw [List.foldl_cons,ih,UInt8.toNat_add,List.map_cons,List.sum_cons]
    omega

theorem copy_loop (message data : Bytes) (startpos messagestart count : Nat)
    (available : messagestart + count ≤ message.length) (inside : startpos + count ≤ data.length)
    (small : data.length < 2^8) :
    (List.range count).foldlM (copyByte message messagestart) (startpos,data) =
      .ok (startpos + count,overwrite data startpos ((message.drop messagestart).take count)) := by
  induction count with
  | zero => simp [overwrite_nil,pure,Except.pure]
  | succ count ih =>
    have run_length : ((message.drop messagestart).take count).length = count := by
      simp only [List.length_take,List.length_drop]
      omega
    have present : message[count + messagestart]? = some message[count + messagestart] :=
      List.getElem?_eq_getElem (by omega)
    have next : (message.drop messagestart).take (count + 1) =
        (message.drop messagestart).take count ++ [message[count + messagestart]] := by
      rw [List.take_add_one,List.getElem?_drop,Nat.add_comm messagestart count,present]
      rfl
    have buffer := overwrite_length data startpos ((message.drop messagestart).take count) (by omega)
    have written := overwrite_set data startpos ((message.drop messagestart).take count)
      message[count + messagestart] (by omega)
    have position : uint8 (startpos + count + 1) = startpos + (count + 1) := by
      rw [uint8,Nat.mod_eq_of_lt (by omega)]
      omega
    rw [List.range_succ,List.foldlM_append,ih (by omega) (by omega)]
    simp only [bind,Except.bind,List.foldlM_cons,List.foldlM_nil,copyByte,messageAt,present,pure,Except.pure]
    rw [store_eq _ _ _ (by omega),position,next,← written,run_length]

/-- Every part fits into its frame, a byte over the checksum included. -/
theorem placement_bounds (part : UInt8) :
    (placement part).startpos + (placement part).size ≤ 69 ∧ (placement part).size ≤ 65 ∧
      (placement part).messagestart ≤ 188 ∧ 4 ≤ (placement part).startpos ∧
      ((placement part).messagestart = 0 ∨ 60 ≤ (placement part).messagestart) := by
  unfold placement
  repeat' split
  all_goals decide

def filled (part : UInt8) (data message : Bytes) : Bytes :=
  if part = 1 then data.set 7 (UInt8.ofNat message.length) else data

theorem filled_length (part : UInt8) (data message : Bytes) : (filled part data message).length = data.length := by
  unfold filled
  split <;> simp

private theorem sizeSub_eq (a b : Nat) (small : a < 2^64) (ordered : b ≤ a) : sizeSub a b = a - b := by
  unfold sizeSub
  omega

theorem copySize_long (part : UInt8) (length : Nat) (size_t : length < 2^64)
    (long : (placement part).messagestart ≤ length) :
    copySize (placement part) length = min (length - (placement part).messagestart) (placement part).size := by
  obtain ⟨_,limit,_,_,_⟩ := placement_bounds part
  rw [copySize,sizeSub_eq _ _ size_t long,uint8]
  split <;> omega

/-- The three tests of `insertMessage` leave exactly the bytes of the message that
are there, also where the difference of the lengths wraps around. -/
theorem insertMessage_eq (part : UInt8) (data message : Bytes) (room : data.length = 69)
    (size_t : message.length < 2^64) :
    insertMessage part data message = .ok (overwrite (filled part data message) (placement part).startpos
      ((message.drop (placement part).messagestart).take (placement part).size)) := by
  obtain ⟨fits,_,_,_,_⟩ := placement_bounds part
  have length := (filled_length part data message).trans room
  have buffer : storeLength part data message = .ok (filled part data message) := by
    unfold storeLength filled
    split
    next => exact store_eq _ _ _ (by omega)
    next => rfl
  unfold insertMessage
  simp only [buffer,bind,Except.bind]
  by_cases short : message.length < (placement part).messagestart
  · have nothing : message.drop (placement part).messagestart = [] := List.drop_eq_nil_of_le (by omega)
    rw [nothing,List.take_nil,overwrite_nil,if_pos short,ite_self]
    rfl
  · have run : (message.drop (placement part).messagestart).take
          (min (message.length - (placement part).messagestart) (placement part).size) =
        (message.drop (placement part).messagestart).take (placement part).size := by
      rw [List.take_eq_take_iff,List.length_drop]
      omega
    rw [copySize_long part _ size_t (by omega),if_neg (by omega),if_neg short,
      copy_loop message (filled part data message) _ _ _ (by omega) (by omega) (by omega),run]
    rfl

private theorem doChkSum_eq (data : Bytes) (room : data.length = 69) :
    doChkSum data 68 = .ok (data.take 68 ++ [((data.take 68).drop 1).foldl (· + ·) 0]) := by
  have summed := chkSumLoop_eq data 67 (by omega)
  have region : (data.drop 1).take 67 = (data.take 68).drop 1 := by rw [List.drop_take]
  have last (value : UInt8) : data.set 68 value = data.take 68 ++ [value] := by
    rw [List.set_eq_take_append_cons_drop,if_pos (by omega),List.drop_eq_nil_of_le (by omega)]
  unfold doChkSum
  change (do let csum ← chkSumLoop data (List.range' 1 67); store data 68 csum) = _
  rw [summed,region]
  exact (store_eq data 68 _ (by omega)).trans (by rw [last])

/-- All of a frame but its checksum: the start with the slot and the length filled
in, then the part's block of the message. -/
def body (part : UInt8) (start : Bytes) (size : Nat) (pos : UInt8) (message : Bytes) : Bytes :=
  (filled part start message).set 2 (5 + pos) ++ padded 0 size (message.drop (placement part).messagestart)

private theorem filled_append (part : UInt8) (start rest message : Bytes) (begins : start.length = (placement part).startpos) :
    filled part (start ++ rest) message = filled part start message ++ rest := by
  unfold filled
  split
  next first =>
    subst first
    have eight : start.length = 8 := begins
    rw [List.set_append_left _ _ (by omega)]
  next => rfl

private theorem dataFrame_eq (part : UInt8) (start : Bytes) (last : UInt8) (size : Nat) (pos : UInt8) (message : Bytes)
    (begins : start.length = (placement part).startpos) (ends : start.length + size = 68)
    (enough : size ≤ (placement part).size) (size_t : message.length < 2^64) :
    dataFrame part (start ++ List.replicate size 0 ++ [last]) pos message =
      .ok (body part start size pos message ++ [((body part start size pos message).drop 1).foldl (· + ·) 0]) := by
  obtain ⟨_,_,_,inner,_⟩ := placement_bounds part
  have header : filled part (start ++ List.replicate size 0 ++ [last]) message =
      filled part start message ++ List.replicate size 0 ++ [last] := by
    rw [List.append_assoc,filled_append part start _ message begins,List.append_assoc]
  have room : (start ++ List.replicate size 0 ++ [last]).length = 69 := by
    simp only [List.length_append,List.length_replicate,List.length_singleton]
    omega
  have same := filled_length part start message
  have inserted := insertMessage_eq part _ message room size_t
  rw [header,← begins,← same] at inserted
  have cut := overwrite_zeros 0 (filled part start message) [last]
    (message.drop (placement part).messagestart) size (placement part).size enough
  rw [show (filled part start message).length + size = 68 by omega] at cut
  have fits := overwrite_length (filled part start message ++ List.replicate size 0 ++ [last])
    (filled part start message).length ((message.drop (placement part).messagestart).take (placement part).size)
    (by
      have := (placement_bounds part).1
      simp only [List.length_append,List.length_replicate,List.length_take,List.length_drop,List.length_singleton]
      omega)
  generalize overwrite (filled part start message ++ List.replicate size 0 ++ [last])
    (filled part start message).length
    ((message.drop (placement part).messagestart).take (placement part).size) = data at inserted cut fits
  have length : data.length = 69 := by
    rw [fits]
    simp only [List.length_append,List.length_replicate,List.length_singleton]
    omega
  have numbered : setMessageNumber data pos = .ok (data.set 2 (5 + pos)) := store_eq _ _ _ (by omega)
  have bytes : (data.set 2 (5 + pos)).take 68 = body part start size pos message := by
    rw [List.take_set,cut,body,List.set_append_left _ _ (by omega)]
  have summed := doChkSum_eq (data.set 2 (5 + pos)) (by rw [List.length_set,length])
  rw [bytes] at summed
  unfold dataFrame
  simp only [inserted,numbered,summed,bind,Except.bind]

def frameBytes (part : UInt8) (start : Bytes) (size : Nat) (pos : UInt8) (message : Bytes) : Bytes :=
  body part start size pos message ++ [((body part start size pos message).drop 1).foldl (· + ·) 0]

def messageFrames (pos : UInt8) (message : Bytes) : List Bytes :=
  [frameBytes 1 [0x02,0x31,0x06,0x00,0x35,0x00,0x42,0x00] 60 pos message,
    frameBytes 2 [0x02,0x31,0x06,0x40] 64 pos message,
    frameBytes 3 [0x02,0x31,0x06,0x80] 64 pos message,
    frameBytes 4 [0x02,0x31,0x06,0xC0] 64 pos message]

theorem dataFrame1 (pos : UInt8) (message : Bytes) (size_t : message.length < 2^64) :
    dataFrame 1 header1 pos message = .ok (frameBytes 1 [0x02,0x31,0x06,0x00,0x35,0x00,0x42,0x00] 60 pos message) :=
  dataFrame_eq 1 _ 0x72 60 pos message rfl rfl (by decide) size_t

theorem dataFrame2 (pos : UInt8) (message : Bytes) (size_t : message.length < 2^64) :
    dataFrame 2 header2 pos message = .ok (frameBytes 2 [0x02,0x31,0x06,0x40] 64 pos message) :=
  dataFrame_eq 2 _ 0x71 64 pos message rfl rfl (by decide) size_t

theorem dataFrame3 (pos : UInt8) (message : Bytes) (size_t : message.length < 2^64) :
    dataFrame 3 header3 pos message = .ok (frameBytes 3 [0x02,0x31,0x06,0x80] 64 pos message) :=
  dataFrame_eq 3 _ 0xB7 64 pos message rfl rfl (by decide) size_t

theorem dataFrame4 (pos : UInt8) (message : Bytes) (size_t : message.length < 2^64) :
    dataFrame 4 header4 pos message = .ok (frameBytes 4 [0x02,0x31,0x06,0xC0] 64 pos message) :=
  dataFrame_eq 4 _ 0xF7 64 pos message rfl rfl (by decide) size_t

end LEDMessageBoard.Frame
