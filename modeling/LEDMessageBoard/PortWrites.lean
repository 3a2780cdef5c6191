import LEDMessageBoard.SerialPort
import LEDMessageBoard.ShortWrites

/-! `setMessage` over the loops of the serial library: its five writes, each of which may send
a part, throw, or have to wait for more. -/
namespace LEDMessageBoard.PortWrites
open General General.Program General.Transfer LEDMessageBoard.Frame Escape Driver ShortWrites SerialPort

/-- The size of each of the writes of `setMessage`. -/
def writeSize (i : Nat) : Nat := if i = 4 then 3 else 69

/-- What ends `setMessage` early where each of its writes is the loop of the library. -/
inductive PortFault where
  | driver (fault : Fault)
  | thrown (error : Thrown)
  /-- The rounds of a write do not bring it to an end. -/
  | waits
deriving DecidableEq, Repr

abbrev PortM := Program World PortFault

/-- A part of the driver that writes nothing. -/
def lifted {α : Type} (part : DriverM α) : PortM α := do
  let ran := exec part (← get)
  set ran.2
  checked (ran.1.mapError .driver)

/-- `sp->write(data, n)`. What has gone out is on the line whether the loop returns or throws. -/
def portWrite (rounds : List WriteRound) (data : Bytes) : PortM Nat := do
  match (← get).ctx.sp with
  | none => throw (.driver .nullSerial)
  | some sp =>
    if sp.isOpen then
      let (outcome,bytes) := write data 0 rounds
      modify fun w => {w with wire := w.wire ++ [⟨sp.port,bytes⟩]}
      match outcome with
      | some (.ok count) => return count
      | some (.error error) => throw (.thrown error)
      | none => throw .waits
    else throw (.driver .portNotOpened)

def sendFramesOver (schedules : Nat → List WriteRound) (pos : Int32) (message : Bytes) : PortM Unit := do
  let frame1 ← lifted (checked (dataFrame 1 header1 (posByte pos) message))
  let frame2 ← lifted (checked (dataFrame 2 header2 (posByte pos) message))
  let frame3 ← lifted (checked (dataFrame 3 header3 (posByte pos) message))
  let frame4 ← lifted (checked (dataFrame 4 header4 (posByte pos) message))
  discard (portWrite (schedules 0) frame1)
  discard (portWrite (schedules 1) frame2)
  discard (portWrite (schedules 2) frame3)
  discard (portWrite (schedules 3) frame4)

def sendMaskOver (schedules : Nat → List WriteRound) : PortM Unit := do
  let mask := UInt8.ofNat (toUlong (← get).ctx.msgdisplay)
  discard (portWrite (schedules 4) [0x02,0x33,mask])

/-- `setMessage` over the loops of the library: the schedules are the rounds of its writes. -/
def setMessageOver (schedules : Nat → List WriteRound) (pos : Int32) (message : Bytes) : PortM Bool := do
  if (← get).ctx.messages < pos.toUInt32 then
    return false
  else
    let message := trim message
    if message.length > 0 then
      lifted (assignMessage pos message)
      lifted (assignBit pos true)
      sendFramesOver schedules pos (escape message)
    else
      lifted (assignMessage pos [])
      lifted (assignBit pos false)
    sendMaskOver schedules
    return true

/-- The writes of `setMessage`, each with its number. -/
def writes (w : World) (pos : Int32) (message : Bytes) : List (Nat × Bytes) :=
  (if (trim message).length > 0 then
    (messageFrames (posByte pos) (escape (trim message))).mapIdx fun i frame => (i,frame)
  else []) ++ [(4,maskFrame (recorded w pos (trim message)).ctx)]

/-- One write, in the rounds that its number has. -/
def runWrite (schedules : Nat → List WriteRound) (numbered : Nat × Bytes) : Option (Except Thrown Nat) × Bytes :=
  write numbered.2 0 (schedules numbered.1)

def loopFault : Option (Except Thrown Nat) → Option PortFault
  | some (.ok _) => none
  | some (.error error) => some (.thrown error)
  | none => some .waits

/-- The writes that are begun: all of them, or those up to the first whose loop does not return. -/
def Ends (schedules : Nat → List WriteRound) (begun rest : List (Nat × Bytes)) : Option PortFault → Prop
  | none => rest = [] ∧ ∀ numbered ∈ begun, loopFault (runWrite schedules numbered).1 = none
  | some fault => ∃ earlier last, begun = earlier ++ [last] ∧
      (∀ numbered ∈ earlier, loopFault (runWrite schedules numbered).1 = none) ∧
      loopFault (runWrite schedules last).1 = some fault

private theorem exec_lifted {α : Type} (part : DriverM α) (w : World) :
    exec (lifted part) w = ((exec part w).1.mapError .driver,(exec part w).2) := by
  simp [lifted,exec_bind]

private theorem exec_lifted_bind {α β : Type} {part : DriverM α} {value : α} {w final : World}
    (ran : exec part w = (.ok value,final)) (next : α → PortM β) :
    exec (lifted part >>= next) w = exec (next value) final :=
  exec_bind_ok (by rw [exec_lifted,ran]; rfl) next

private theorem exec_portWrite (rounds : List WriteRound) (data : Bytes) (w : World) (target : Bytes)
    (ready : w.ctx.sp = some ⟨target,true⟩) :
    exec (discard (portWrite rounds data)) w =
      ((loopFault (write data 0 rounds).1).elim (.ok ()) .error,sent w target [(write data 0 rounds).2]) := by
  rw [exec_discard]
  unfold portWrite
  rw [exec_bind_ok (exec_get w),ready]
  dsimp only
  rw [if_pos rfl,exec_bind_ok (exec_modify _ w)]
  cases (write data 0 rounds).1 with
  | none => rfl
  | some returned => cases returned <;> rfl

/-- The writes one after the other. -/
def writeAll (schedules : Nat → List WriteRound) (list : List (Nat × Bytes)) : PortM Unit :=
  inSequence (list.map fun numbered => discard (portWrite (schedules numbered.1) numbered.2))

private theorem exec_writeAll_append (schedules : Nat → List WriteRound) (first second : List (Nat × Bytes)) (w : World) :
    exec (writeAll schedules (first ++ second)) w = exec (do writeAll schedules first; writeAll schedules second) w := by
  rw [writeAll,List.map_append]
  exact exec_inSequence_append _ _ w

private theorem exec_writeAll (schedules : Nat → List WriteRound) (list : List (Nat × Bytes)) (w : World) (target : Bytes)
    (ready : w.ctx.sp = some ⟨target,true⟩) :
    ∃ begun rest ended, list = begun ++ rest ∧ Ends schedules begun rest ended ∧
      exec (writeAll schedules list) w =
        (ended.elim (.ok ()) .error,sent w target (begun.map fun numbered => (runWrite schedules numbered).2)) := by
  induction list generalizing w with
  | nil => exact ⟨[],[],none,rfl,⟨rfl,by simp⟩,by simp [writeAll,inSequence,sent]⟩
  | cons first later ih =>
    have ran := exec_portWrite (schedules first.1) first.2 w target ready
    cases faulty : loopFault (runWrite schedules first).1 with
    | some fault =>
      refine ⟨[first],later,some fault,rfl,⟨[],first,rfl,by simp,faulty⟩,?_⟩
      rw [runWrite] at faulty
      rw [faulty] at ran
      exact exec_bind_error ran _
    | none =>
      obtain ⟨begun,rest,ended,same,ends,after⟩ := ih (sent w target [(runWrite schedules first).2]) ready
      have onward : exec (writeAll schedules (first :: later)) w =
          exec (writeAll schedules later) (sent w target [(runWrite schedules first).2]) := by
        rw [runWrite] at faulty
        rw [faulty] at ran
        exact exec_bind_ok ran _
      refine ⟨first :: begun,rest,ended,by rw [same,List.cons_append],?_,?_⟩
      · cases ended with
        | none =>
          obtain ⟨none_left,returned⟩ := ends
          exact ⟨none_left,List.forall_mem_cons.mpr ⟨faulty,returned⟩⟩
        | some fault =>
          obtain ⟨earlier,last,whole,returned,failed⟩ := ends
          exact ⟨first :: earlier,last,by rw [whole,List.cons_append],List.forall_mem_cons.mpr ⟨faulty,returned⟩,failed⟩
      · rw [onward,after,sent_sent,List.map_cons,List.singleton_append]

private theorem exec_sendFramesOver (schedules : Nat → List WriteRound) (w : World) (pos : Int32) (message : Bytes)
    (size_t : message.length < 2^64) :
    exec (sendFramesOver schedules pos message) w =
      exec (writeAll schedules ((messageFrames (posByte pos) message).mapIdx fun i frame => (i,frame))) w := by
  unfold sendFramesOver
  rw [dataFrame1 _ message size_t,dataFrame2 _ message size_t,dataFrame3 _ message size_t,dataFrame4 _ message size_t,
    exec_lifted_bind (exec_checked _ w),exec_lifted_bind (exec_checked _ w),exec_lifted_bind (exec_checked _ w),
    exec_lifted_bind (exec_checked _ w)]
  simp only [writeAll,messageFrames,List.mapIdx_cons,List.mapIdx_nil,List.map_cons,List.map_nil,inSequence,bind_pure_unit]

private theorem exec_sendMaskOver (schedules : Nat → List WriteRound) (w : World) :
    exec (sendMaskOver schedules) w = exec (writeAll schedules [(4,maskFrame w.ctx)]) w := by
  unfold sendMaskOver
  rw [exec_bind_ok (exec_get w)]
  simp only [writeAll,List.map_cons,List.map_nil,inSequence,bind_pure_unit,maskFrame]

/-- The text of a slot and its bit are stored before the first write. -/
theorem exec_stored (w : World) (pos : Int32) (message : Bytes) (inside : bitIndex pos < w.ctx.msgdisplay.length)
    (next : PortM Bool) :
    exec (do lifted (assignMessage pos message); lifted (assignBit pos (decide (message.length > 0))); next) w =
      exec next (recorded w pos message) := by
  have text : exec (assignMessage pos message) w = (.ok (),{w with ctx := {w.ctx with
      displayedmsgs := Function.update w.ctx.displayedmsgs pos (some message)}}) := rfl
  have bit : exec (assignBit pos (decide (message.length > 0))) {w with ctx := {w.ctx with
      displayedmsgs := Function.update w.ctx.displayedmsgs pos (some message)}} = (.ok (),recorded w pos message) := by
    simp [assignBit,exec_bind,inside,recorded]
  rw [exec_lifted_bind text,exec_lifted_bind bit]

/-- The mask goes out behind the frames, as it was when they began. -/
theorem exec_transmitOver (schedules : Nat → List WriteRound) (w : World) (pos : Int32) (message : Bytes) (target : Bytes)
    (ready : w.ctx.sp = some ⟨target,true⟩) (size_t : message.length < 2^64) :
    exec (do sendFramesOver schedules pos message; sendMaskOver schedules) w =
      exec (writeAll schedules ((messageFrames (posByte pos) message).mapIdx (fun i frame => (i,frame)) ++
        [(4,maskFrame w.ctx)])) w := by
  rw [exec_bind_congr (exec_sendFramesOver schedules w pos message size_t),exec_writeAll_append]
  obtain ⟨begun,rest,ended,_,_,ran⟩ :=
    exec_writeAll schedules ((messageFrames (posByte pos) message).mapIdx fun i frame => (i,frame)) w target ready
  cases ended with
  | some fault => exact (exec_bind_error ran _).trans (exec_bind_error ran _).symm
  | none => rw [exec_bind_ok ran,exec_bind_ok ran,exec_sendMaskOver,sent_ctx]

private theorem exec_setMessageOver (schedules : Nat → List WriteRound) (w : World) (pos : Int32) (message : Bytes)
    (target : Bytes) (six : w.ctx.SixSlots) (slot : w.ctx.InRange pos) (ready : w.ctx.sp = some ⟨target,true⟩) :
    exec (setMessageOver schedules pos message) w =
      exec (do writeAll schedules (writes w pos message); return true) (recorded w pos (trim message)) := by
  have passed : ¬w.ctx.messages < pos.toUInt32 := fun low => ((guard_iff w.ctx six pos).mp low).1 slot
  have inside : bitIndex pos < w.ctx.msgdisplay.length := by
    rw [six.msgdisplay]
    exact (bitIndex_eq w.ctx six pos slot).2
  have escaped : (escape (trim message)).length < 2^64 := by
    have bound := trim_length message
    rw [escape_length]
    omega
  have stored := exec_stored w pos (trim message) inside
  unfold setMessageOver writes
  rw [exec_bind_ok (exec_get w),if_neg passed]
  dsimp only
  by_cases some_text : (trim message).length > 0
  · rw [decide_eq_true some_text] at stored
    rw [if_pos some_text,if_pos some_text]
    refine (stored _).trans ?_
    rw [← bind_assoc]
    exact exec_bind_congr (exec_transmitOver schedules (recorded w pos (trim message)) pos _ target ready escaped) _
  · have empty : trim message = [] := List.eq_nil_of_length_eq_zero (by omega)
    rw [decide_eq_false some_text] at stored
    rw [if_neg some_text,if_neg some_text,List.nil_append]
    rw [empty] at stored ⊢
    refine (stored _).trans ?_
    exact exec_bind_congr (exec_sendMaskOver schedules _) _


private theorem writes_intended (w : World) (pos : Int32) (message : Bytes) :
    (writes w pos message).map Prod.snd = intended w pos message := by
  unfold writes intended
  split
  next => simp [messageFrames]
  next => rfl

private theorem writes_sizes (w : World) (pos : Int32) (message : Bytes) :
    ∀ numbered ∈ writes w pos message, numbered.1 ≤ 4 ∧ numbered.2.length = writeSize numbered.1 := by
  have frame (part : UInt8) (start : Bytes) (size : Nat) (whole : start.length + size = 68) (text : Bytes) :
      (frameBytes part start size (posByte pos) text).length = 69 := frameBytes_length part start size _ _ whole
  unfold writes
  split
  next =>
    simp [messageFrames,frame,writeSize,maskFrame]
  next => simp [writeSize,maskFrame]

/-- All of the data has gone out exactly where the loop returns its length. -/
theorem write_whole (data : Bytes) (rounds : List WriteRound) :
    (write data 0 rounds).2 = data ↔ (write data 0 rounds).1 = some (.ok data.length) := by
  have inside : 0 ≤ data.length := Nat.zero_le _
  have bounds := (transfer_bounds (rounds.map WriteRound.moves) inside).2
  have complete := complete_iff (rounds.map WriteRound.moves) inside
  rw [write_eq data 0 rounds inside,List.drop_zero,Nat.sub_zero,List.take_eq_self_iff]
  constructor
  · intro all
    have whole : (transfer data.length 0 (rounds.map WriteRound.moves)).1 = data.length := Nat.le_antisymm bounds all
    rw [complete.mpr whole,whole]
    rfl
  · intro returned
    exact Nat.le_of_eq (outcome_ok returned).1

private theorem loopFault_returned {result : Option (Except Thrown Nat)} (returned : loopFault result = none) :
    ∃ count, result = some (.ok count) := by
  unfold loopFault at returned
  split at returned
  next count => exact ⟨count,rfl⟩
  next => cases returned
  next => cases returned

/-- A write that has not sent all has timed out, or its loop has not returned. -/
theorem write_short {data : Bytes} {rounds : List WriteRound} (short : (write data 0 rounds).2 ≠ data)
    (returned : loopFault (write data 0 rounds).1 = none) : .expired ∈ rounds ∨ .timedOut ∈ rounds := by
  obtain ⟨count,same⟩ := loopFault_returned returned
  obtain ⟨front,_,late⟩ := write_returns same
  apply late
  by_contra enough
  exact short (by rw [front,List.take_of_length_le (Nat.le_of_not_lt enough)])

/-- The counts of a line are what the loops return. -/
def Serves (schedules : Nat → List WriteRound) (line : Line) : Prop :=
  ∀ i ≤ 4, ∀ data : Bytes, data.length = writeSize i →
    ∃ count, line.frames i = some count ∧ (write data 0 (schedules i)).1 = some (.ok count)

private theorem writes_chunks (line : Line) (w : World) (pos : Int32) (message : Bytes) :
    chunks line pos (trim message) (maskFrame (recorded w pos (trim message)).ctx) =
      (writes w pos message).map fun numbered => transmitted (line.frames numbered.1) numbered.2 := by
  unfold chunks writes
  split
  next => simp [messageFrames]
  next => rfl

private theorem served_write {schedules : Nat → List WriteRound} {line : Line} (serves : Serves schedules line) {w : World}
    {pos : Int32} {message : Bytes} {numbered : Nat × Bytes} (member : numbered ∈ writes w pos message) :
    loopFault (runWrite schedules numbered).1 = none ∧
      transmitted (line.frames numbered.1) numbered.2 = (runWrite schedules numbered).2 := by
  obtain ⟨low,size⟩ := writes_sizes w pos message numbered member
  obtain ⟨count,limit,returns⟩ := serves numbered.1 low numbered.2 size
  have front := (write_returns returns).1
  unfold runWrite
  rw [returns,limit,front]
  exact ⟨rfl,rfl⟩

section Endings

variable {schedules : Nat → List WriteRound} {begun rest : List (Nat × Bytes)} {ended : Option PortFault}

theorem Ends.all (ends : Ends schedules begun rest ended)
    (returned : ∀ numbered ∈ begun, loopFault (runWrite schedules numbered).1 = none) : ended = none ∧ rest = [] := by
  cases ended with
  | none => exact ⟨rfl,ends.1⟩
  | some fault =>
    obtain ⟨earlier,last,same,_,failed⟩ := ends
    rw [returned last (by rw [same]; simp)] at failed
    cases failed

private theorem Ends.sent_iff (ends : Ends schedules begun rest ended) :
    (begun.map fun numbered => (runWrite schedules numbered).2) = (begun ++ rest).map Prod.snd ↔
      ∀ numbered ∈ begun ++ rest, (runWrite schedules numbered).1 = some (.ok numbered.2.length) := by
  constructor
  · intro same
    have count := congrArg List.length same
    rw [List.length_map,List.length_map,List.length_append] at count
    have none_left : rest = [] := List.eq_nil_of_length_eq_zero (by omega)
    rw [none_left,List.append_nil] at same ⊢
    intro numbered member
    exact (write_whole _ _).mp (List.map_inj_left.mp same numbered member)
  · intro returned
    have all := ends.all fun numbered member => by rw [returned numbered (List.mem_append_left _ member)]; rfl
    rw [all.2,List.append_nil] at returned ⊢
    exact List.map_inj_left.mpr fun numbered member => (write_whole _ _).mpr (returned numbered member)

theorem Ends.cause (ends : Ends schedules begun rest ended)
    (short : ¬∀ numbered ∈ begun ++ rest, (runWrite schedules numbered).1 = some (.ok numbered.2.length)) :
    ∃ numbered ∈ begun, loopFault (runWrite schedules numbered).1 ≠ none ∨ .expired ∈ schedules numbered.1 ∨
      .timedOut ∈ schedules numbered.1 := by
  cases ended with
  | some fault =>
    obtain ⟨earlier,last,same,_,failed⟩ := ends
    exact ⟨last,by rw [same]; simp,.inl (by rw [failed]; exact Option.some_ne_none fault)⟩
  | none =>
    obtain ⟨none_left,returned⟩ := ends
    rw [none_left,List.append_nil] at short
    obtain ⟨numbered,some_short⟩ := not_forall.mp short
    obtain ⟨member,incomplete⟩ := Classical.not_imp.mp some_short
    exact ⟨numbered,member,.inr (write_short (mt (write_whole _ _).mp incomplete) (returned numbered member))⟩

end Endings

/-- A run of `setMessage` over the loops: what was begun, what was not, and how it ended. -/
structure UpdateRun (schedules : Nat → List WriteRound) (w : World) (target : Bytes) (pos : Int32) (message : Bytes)
    (begun rest : List (Nat × Bytes)) (ended : Option PortFault) (final : World) : Prop where
  ran : exec (setMessageOver schedules pos message) w = (ended.elim (.ok true) .error,final)
  updated : Updated w final pos message
  order : writes w pos message = begun ++ rest
  ends : Ends schedules begun rest ended
  wire : final.wire = w.wire ++ begun.map fun numbered => ⟨target,(runWrite schedules numbered).2⟩
  full : FullySent w final target pos message ↔
    ∀ numbered ∈ writes w pos message, (runWrite schedules numbered).1 = some (.ok numbered.2.length)
  short : ¬FullySent w final target pos message → ∃ numbered ∈ begun, loopFault (runWrite schedules numbered).1 ≠ none ∨
    .expired ∈ schedules numbered.1 ∨ .timedOut ∈ schedules numbered.1
  served : ∀ line, Serves schedules line → ended = none ∧ exec (setMessage line pos message) w = (.ok true,final)

/-- The writes of `setMessage` send what their rounds allow for, one after the other up to the
first whose loop does not return. The update is on the line exactly where every loop returns
the length of its data; where it is not, a loop has given up or has not returned. -/
theorem update_sent_iff (schedules : Nat → List WriteRound) (w : World) (target : Bytes) (pos : Int32) (message : Bytes)
    (six : w.ctx.SixSlots) (slot : w.ctx.InRange pos) (ready : w.ctx.sp = some ⟨target,true⟩) :
    ∃ begun rest ended final, UpdateRun schedules w target pos message begun rest ended final := by
  obtain ⟨begun,rest,ended,all,ends,ran⟩ := exec_writeAll schedules (writes w pos message) (recorded w pos (trim message))
    target ready
  have full : FullySent w (sent (recorded w pos (trim message)) target
      (begun.map fun numbered => (runWrite schedules numbered).2)) target pos message ↔
        ∀ numbered ∈ writes w pos message, (runWrite schedules numbered).1 = some (.ok numbered.2.length) := by
    rw [FullySent,sent_wire,recorded_wire,List.append_cancel_left_eq,
      List.map_inj_right fun _ _ equal => (Transmission.mk.inj equal).2,← writes_intended,all]
    exact ends.sent_iff
  refine ⟨begun,rest,ended,_,?_,⟨Function.update_self ..,rfl⟩,all,ends,?_,full,?_,?_⟩
  · rw [exec_setMessageOver schedules w pos message target six slot ready]
    cases ended with
    | none => exact exec_bind_ok ran _
    | some fault => exact exec_bind_error ran _
  · rw [sent_wire,recorded_wire,List.map_map]
    rfl
  · rw [full,all]
    exact ends.cause
  · intro line serves
    have served := ends.all fun numbered member => (served_write serves (all ▸ List.mem_append_left _ member)).1
    refine ⟨served.1,?_⟩
    rw [served.2,List.append_nil] at all
    rw [exec_setMessage_open line w pos message target six slot ready,writes_chunks]
    have same : (writes w pos message).map (fun numbered => transmitted (line.frames numbered.1) numbered.2) =
        (writes w pos message).map fun numbered => (runWrite schedules numbered).2 :=
      List.map_congr_left fun numbered member => (served_write serves member).2
    rw [same,all]

/-- The second frame times out after ten bytes. -/
def slow : Nat → List WriteRound
  | 1 => [.ready 10,.interrupted,.timedOut]
  | _ => [.ready 100]

def slowLine : Line := ⟨true,true,[0x55],fun _ => none,fun i => some (if i = 1 then 10 else writeSize i)⟩

private theorem slow_served : Serves slow slowLine := by
  intro i bound data size
  refine ⟨_,rfl,?_⟩
  rw [write_eq data 0 _ (Nat.zero_le _),size]
  rcases i with _ | _ | _ | _ | _ | i
  all_goals rfl

/-- And the device is gone in the fourth. -/
def failing (i : Nat) : List WriteRound := if i = 3 then [.ready 5,.failed] else slow i

theorem update_sent_iff_failing :
    (∃ begun rest ended final,
      UpdateRun failing openWorld (text "/dev/ttyUSB0") 1 (text "Hi") begun rest ended final) ∧
    (∃ begun rest ended final, UpdateRun slow openWorld (text "/dev/ttyUSB0") 1 (text "Hi") begun rest ended final) ∧
    Serves slow slowLine :=
  ⟨update_sent_iff failing openWorld (text "/dev/ttyUSB0") 1 (text "Hi") ⟨rfl,rfl⟩ (by decide) rfl,
    update_sent_iff slow openWorld (text "/dev/ttyUSB0") 1 (text "Hi") ⟨rfl,rfl⟩ (by decide) rfl,slow_served⟩

example : (exec (setMessageOver failing 1 (text "Hi")) openWorld).1 = .error (.thrown .ioException) ∧
    (exec (setMessageOver failing 1 (text "Hi")) openWorld).2.wire.map (fun sent => sent.bytes.length) = [69,10,69,5] := by
  decide +kernel

end LEDMessageBoard.PortWrites
