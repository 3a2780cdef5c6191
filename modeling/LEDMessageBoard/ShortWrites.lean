import LEDMessageBoard.DriverRuns

/-! What `setMessage` reports when a write to the board times out: the counts that the
writes return are logged and nothing else. -/
namespace LEDMessageBoard.ShortWrites
open General General.Program LEDMessageBoard.Frame Escape Driver

/-- The bytes `setMessage` means to send: the data frames of a text, and the mask. -/
def intended (w : World) (pos : Int32) (message : Bytes) : List Bytes :=
  (if (trim message).length > 0 then messageFrames (posByte pos) (escape (trim message)) else []) ++
    [maskFrame (recorded w pos (trim message)).ctx]

def Updated (w final : World) (pos : Int32) (message : Bytes) : Prop :=
  final.ctx.displayedmsgs pos = some (trim message) ∧
    final.ctx.msgdisplay = w.ctx.msgdisplay.set (bitIndex pos) (decide ((trim message).length > 0))

def FullySent (w final : World) (target : Bytes) (pos : Int32) (message : Bytes) : Prop :=
  final.wire = w.wire ++ (intended w pos message).map fun bytes => ⟨target,bytes⟩

/-- A `true` stands for an update that is on the board; otherwise nothing has changed. -/
structure Honest (w : World) (target : Bytes) (pos : Int32) (message : Bytes) (result : Bool)
    (final : World) : Prop where
  success : result = true ∧ Updated w final pos message → FullySent w final target pos message
  failure : ¬FullySent w final target pos message →
    result = false ∧ final.ctx.displayedmsgs = w.ctx.displayedmsgs ∧ final.ctx.msgdisplay = w.ctx.msgdisplay

def Completes (limit : Option Nat) (size : Nat) : Prop := ∀ count, limit = some count → size ≤ count

structure AllComplete (line : Line) (message : Bytes) : Prop where
  data : message ≠ [] → ∀ i < 4, Completes (line.frames i) 69
  mask : Completes (line.frames 4) 3

private theorem transmitted_eq_iff (limit : Option Nat) (data : Bytes) :
    transmitted limit data = data ↔ Completes limit data.length := by
  cases limit with
  | none => exact ⟨fun _ => nofun,fun _ => rfl⟩
  | some count =>
    constructor
    · intro same other equal
      cases equal
      have shorter := congrArg List.length same
      rw [transmitted,List.length_take] at shorter
      omega
    · intro complete
      exact List.take_of_length_le (complete count rfl)

theorem frameBytes_length (part : UInt8) (start : Bytes) (size : Nat) (pos : UInt8) (message : Bytes)
    (whole : start.length + size = 68) : (frameBytes part start size pos message).length = 69 := by
  simp only [frameBytes,body,List.length_append,List.length_set,filled_length,General.Blocks.padded_length,
    List.length_singleton]
  omega

private theorem trim_empty (message : Bytes) : trim message = [] ↔ message = [] := by
  simp [trim_eq]

private theorem chunks_eq_iff (line : Line) (w : World) (pos : Int32) (message : Bytes) :
    chunks line pos (trim message) (maskFrame (recorded w pos (trim message)).ctx) = intended w pos message ↔
      AllComplete line message := by
  have mask : transmitted (line.frames 4) (maskFrame (recorded w pos (trim message)).ctx) =
      maskFrame (recorded w pos (trim message)).ctx ↔ Completes (line.frames 4) 3 := transmitted_eq_iff _ _
  have frame (i : Nat) (part : UInt8) (start : Bytes) (size : Nat) (whole : start.length + size = 68) :
      transmitted (line.frames i) (frameBytes part start size (posByte pos) (escape (trim message))) =
        frameBytes part start size (posByte pos) (escape (trim message)) ↔ Completes (line.frames i) 69 := by
    rw [transmitted_eq_iff,frameBytes_length part start size _ _ whole]
  unfold chunks intended
  by_cases empty : message = []
  · subst empty
    constructor
    · intro same
      exact ⟨fun some_text => absurd rfl some_text,mask.mp (List.cons.inj same).1⟩
    · intro complete
      change [transmitted _ _] = [_]
      rw [mask.mpr complete.mask]
  · have some_text : (trim message).length > 0 := List.length_pos_iff.mpr (mt (trim_empty message).mp empty)
    simp only [some_text,if_true,messageFrames,List.mapIdx_cons,List.mapIdx_nil,List.cons_append,List.nil_append,
      List.cons.injEq,and_true,mask]
    constructor
    · rintro ⟨first,second,third,fourth,last⟩
      refine ⟨fun _ i bound => ?_,last⟩
      rcases i with _ | _ | _ | _ | i
      · exact (frame 0 _ _ _ rfl).mp first
      · exact (frame 1 _ _ _ rfl).mp second
      · exact (frame 2 _ _ _ rfl).mp third
      · exact (frame 3 _ _ _ rfl).mp fourth
      · omega
    · rintro ⟨data,last⟩
      have complete (i : Nat) (bound : i < 4) := data empty i bound
      exact ⟨(frame 0 _ _ _ rfl).mpr (complete 0 (by decide)),(frame 1 _ _ _ rfl).mpr (complete 1 (by decide)),
        (frame 2 _ _ _ rfl).mpr (complete 2 (by decide)),(frame 3 _ _ _ rfl).mpr (complete 3 (by decide)),last⟩

private theorem setMessage_outcome (line : Line) (w : World) (target : Bytes) (pos : Int32) (message : Bytes)
    (six : w.ctx.SixSlots) (slot : w.ctx.InRange pos) (ready : w.ctx.sp = some ⟨target,true⟩) :
    ∃ final, exec (setMessage line pos message) w = (.ok true,final) ∧ Updated w final pos message ∧
      (FullySent w final target pos message ↔ AllComplete line message) := by
  refine ⟨_,exec_setMessage_open line w pos message target six slot ready,⟨Function.update_self ..,rfl⟩,?_⟩
  rw [← chunks_eq_iff line w pos message,FullySent,sent_wire,recorded_wire,List.append_cancel_left_eq]
  exact List.map_inj_right fun _ _ equal => (Transmission.mk.inj equal).2

/-- `setMessage` keeps its promise exactly as long as none of its writes is short. -/
theorem setMessage_honest_iff (line : Line) (w : World) (target : Bytes) (pos : Int32) (message : Bytes)
    (six : w.ctx.SixSlots) (slot : w.ctx.InRange pos) (ready : w.ctx.sp = some ⟨target,true⟩) :
    (∃ result final, exec (setMessage line pos message) w = (.ok result,final) ∧
      Honest w target pos message result final) ↔ AllComplete line message := by
  obtain ⟨final,ran,updated,full⟩ := setMessage_outcome line w target pos message six slot ready
  rw [← full,ran]
  constructor
  · rintro ⟨result,_,equal,honest⟩
    obtain ⟨returned,rfl⟩ := Prod.mk.inj equal
    cases returned
    exact honest.success ⟨rfl,updated⟩
  · intro complete
    exact ⟨true,final,rfl,fun _ => complete,fun short => absurd complete short⟩

def openWorld : World := .start {mainDefaults false with sp := some ⟨text "/dev/ttyUSB0",true⟩}

theorem setMessage_honest_complete :
    (∃ result final, exec (setMessage .answering 1 (text "Hi")) openWorld = (.ok result,final) ∧
      Honest openWorld (text "/dev/ttyUSB0") 1 (text "Hi") result final) ↔ AllComplete .answering (text "Hi") :=
  setMessage_honest_iff .answering openWorld (text "/dev/ttyUSB0") 1 (text "Hi") ⟨rfl,rfl⟩ (by decide) rfl

/-- The second data frame stops after ten bytes, and the caller is told of a success. -/
theorem short_write_unnoticed :
    ¬∃ result final, exec (setMessage ⟨true,true,[0x55],fun _ => none,fun i => if i = 1 then some 10 else none⟩ 1 (text "Hi"))
        openWorld = (.ok result,final) ∧ Honest openWorld (text "/dev/ttyUSB0") 1 (text "Hi") result final := by
  obtain ⟨final,ran,updated,full⟩ := setMessage_outcome
    ⟨true,true,[0x55],fun _ => none,fun i => if i = 1 then some 10 else none⟩ openWorld (text "/dev/ttyUSB0") 1 (text "Hi")
    ⟨rfl,rfl⟩ (by decide) rfl
  rintro ⟨result,_,equal,honest⟩
  obtain ⟨returned,rfl⟩ := Prod.mk.inj (ran.symm.trans equal)
  cases returned
  have complete := (full.mp (honest.success ⟨rfl,updated⟩)).data (by decide) 1 (by decide) 10 rfl
  omega

end LEDMessageBoard.ShortWrites
