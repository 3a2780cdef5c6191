import LEDMessageBoard.Encoding
import LEDMessageBoard.General.Stream

/-! The board as its protocol describes it: a parser of the serial byte stream with
one memory for each slot and a run mask. -/
namespace LEDMessageBoard
open General General.Stream LEDMessageBoard.Frame Encoding

inductive Phase where
  | idle
  | command
  | data (received : Bytes)
  | mask
  /-- A byte that starts nothing: the synchronisation is lost. -/
  | lost
deriving DecidableEq

structure Board where
  phase : Phase
  memory : Nat → Nat → Bytes
  mask : UInt8

namespace Board

def handshakeBytes : Bytes := [0x54,0x41,0x42,0x43,0x44,0x45]

def store (board : Board) (frame : Bytes) : Board :=
  let slot := (frame.getD 2 0).toNat - 5
  let position := (frame.getD 3 0).toNat / 0x40
  {board with
    phase := .idle
    memory := Function.update board.memory slot (Function.update (board.memory slot) position (block frame))}

def step (board : Board) (byte : UInt8) : Board :=
  match board.phase with
  | .idle =>
    if byte = 0x02 then {board with phase := .command}
    else if byte ∈ handshakeBytes then board
    else {board with phase := .lost}
  | .command =>
    if byte = 0x31 then {board with phase := .data [0x02,0x31]}
    else if byte = 0x33 then {board with phase := .mask}
    else {board with phase := .lost}
  | .data received =>
    if received.length + 1 < 69 then {board with phase := .data (received ++ [byte])}
    else board.store (received ++ [byte])
  | .mask => {board with phase := .idle,mask := byte}
  | .lost => board

def decoded (board : Board) (slot : Nat) : Option Bytes :=
  decode ((List.range 4).map (board.memory slot))

theorem consume_handshake (board : Board) (idle : board.phase = .idle) :
    consume step board handshakeBytes = board := by
  apply consume_ignored
  intro byte member
  have different : byte ≠ 0x02 := by
    rintro rfl
    exact absurd member (by decide)
  simp only [step,idle,if_neg different,if_pos member]

theorem consume_mask (board : Board) (idle : board.phase = .idle) (mask : UInt8) :
    consume step board [0x02,0x33,mask] = {board with mask := mask} := by
  obtain ⟨phase,memory,old⟩ := board
  cases idle
  rfl

private theorem consume_dataFrame (board : Board) (idle : board.phase = .idle) (rest : Bytes) (size : rest.length = 67) :
    consume step board ([0x02,0x31] ++ rest) = board.store ([0x02,0x31] ++ rest) := by
  obtain ⟨phase,memory,mask⟩ := board
  cases idle
  rw [consume_append]
  exact consume_collecting step (fun received => ⟨.data received,memory,mask⟩)
    (fun frame => (⟨.idle,memory,mask⟩ : Board).store frame) 69 (fun _ _ => rfl) [0x02,0x31] rest
    (by simp [size]) (by rintro rfl; contradiction)

private theorem store_frame (board : Board) (pos address : UInt8) (rest : Bytes) (sum : UInt8) (size : rest.length = 64) :
    board.store ([0x02,0x31,pos,address] ++ rest ++ [sum]) =
      {board with
        phase := .idle
        memory := Function.update board.memory (pos.toNat - 5)
          (Function.update (board.memory (pos.toNat - 5)) (address.toNat / 0x40) rest)} := by
  rw [store,block_frame pos address rest sum size]
  rfl

/-- The frames of a text leave its blocks in the memory of the slot, whatever the
memory held before, and no other memory is touched. -/
theorem consume_messageFrames (board : Board) (idle : board.phase = .idle) (pos : UInt8) (slot : Nat)
    (number : (5 + pos).toNat = slot + 5) (message : Bytes) :
    ∃ after, consume step board (messageFrames pos message).flatten = after ∧ after.phase = .idle ∧
      after.mask = board.mask ∧ (List.range 4).map (after.memory slot) = textBlocks message ∧
      ∀ other, other ≠ slot → after.memory other = board.memory other := by
  have byte : (5 + pos).toNat - 5 = slot := by omega
  have parsed := consume_frames step (fun board => board.phase = .idle) store (messageFrames pos message) ?_ board idle
  · refine ⟨_,parsed.1,parsed.2,?_⟩
    simp only [messageFrames_eq,textBlocks,List.zip_cons_cons,List.zip_nil_right,List.map_cons,List.map_nil,
      List.foldl_cons,List.foldl_nil]
    rw [store_frame _ _ _ _ _ (by simp),store_frame _ _ _ _ _ (by simp),store_frame _ _ _ _ _ (by simp),
      store_frame _ _ _ _ _ (by simp),byte]
    refine ⟨rfl,?_,?_⟩
    · simp [List.range_succ]
    · intro other different
      simp [different]
  · rw [messageFrames_eq]
    simp only [List.forall_mem_map]
    intro part member state idle
    have size : part.2.length = 64 := textBlocks_sizes message _ (List.of_mem_zip member).2
    exact ⟨consume_dataFrame state idle _ (by simp [size]),rfl⟩

end Board

end LEDMessageBoard
