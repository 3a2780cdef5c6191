import LEDMessageBoard.Frame

/-! Every access that `insertMessage` makes: the same function with a log of its reads
of the message and its writes into the frame. -/
namespace LEDMessageBoard.Insertion
open General General.Program General.Blocks LEDMessageBoard.Frame

inductive Access where
  | read (index : Nat)
  | write (index : Nat)
deriving DecidableEq, Repr

/-- The caller's buffer, the local `startpos`, and the accesses so far, oldest first. -/
structure Copying where
  data : Bytes
  startpos : Nat
  accesses : List Access
deriving DecidableEq, Repr

abbrev CopyM (α : Type) := Program Copying Fault α

def log (access : Access) : CopyM Unit := modify fun s => {s with accesses := s.accesses ++ [access]}

def readMessage (message : Bytes) (i : Nat) : CopyM UInt8 := do
  log (.read i)
  checked (messageAt message i)

def writeData (i : Nat) (value : UInt8) : CopyM Unit := do
  log (.write i)
  let data ← checked (store (← get).data i value)
  modify fun s => {s with data := data}

def copyStep (message : Bytes) (messagestart i : Nat) : CopyM Unit := do
  let value ← readMessage message (i + messagestart)
  writeData (← get).startpos value
  modify fun s => {s with startpos := uint8 (s.startpos + 1)}

def insertLogged (part : UInt8) (message : Bytes) : CopyM Unit := do
  let place := placement part
  let size := copySize place message.length
  modify fun s => {s with startpos := place.startpos}
  if part = 1 then writeData 7 (UInt8.ofNat message.length)
  if size > message.length then return ()
  else if place.messagestart > message.length then return ()
  else inSequence ((List.range size).map (copyStep message place.messagestart))

def erased (run : Except Fault Unit × Copying) : Except Fault (Nat × Bytes) :=
  run.1.map fun _ => (run.2.startpos,run.2.data)

private theorem exec_log (access : Access) (s : Copying) :
    exec (log access) s = (.ok (),{s with accesses := s.accesses ++ [access]}) := rfl

private theorem exec_writeData (i : Nat) (value : UInt8) (s : Copying) :
    exec (writeData i value) s = match store s.data i value with
      | .ok data => (.ok (),⟨data,s.startpos,s.accesses ++ [.write i]⟩)
      | .error fault => (.error fault,{s with accesses := s.accesses ++ [.write i]}) := by
  simp only [writeData,exec_bind,exec_log,exec_get,exec_checked]
  cases store s.data i value <;> rfl

private theorem exec_copyStep (message : Bytes) (messagestart i : Nat) (s : Copying) (value : UInt8) (data : Bytes)
    (present : messageAt message (i + messagestart) = .ok value) (inside : store s.data s.startpos value = .ok data) :
    exec (copyStep message messagestart i) s =
      (.ok (),⟨data,uint8 (s.startpos + 1),s.accesses ++ [.read (i + messagestart),.write s.startpos]⟩) := by
  simp [copyStep,readMessage,exec_bind,exec_log,present,exec_writeData,inside]

private theorem copyStep_erased (message : Bytes) (messagestart i : Nat) (s : Copying) :
    erased (exec (copyStep message messagestart i) s) = copyByte message messagestart (s.startpos,s.data) i := by
  cases present : messageAt message (i + messagestart) with
  | error fault =>
    have stopped : exec (copyStep message messagestart i) s =
        (.error fault,{s with accesses := s.accesses ++ [.read (i + messagestart)]}) := by
      simp [copyStep,readMessage,exec_bind,exec_log,present]
    simp [stopped,copyByte,present,erased,bind,Except.bind,Except.map]
  | ok value =>
    cases inside : store s.data s.startpos value with
    | error fault =>
      have stopped : exec (copyStep message messagestart i) s =
          (.error fault,{s with accesses := s.accesses ++ [.read (i + messagestart),.write s.startpos]}) := by
        simp [copyStep,readMessage,exec_bind,exec_log,present,exec_writeData,inside]
      simp [stopped,copyByte,present,inside,erased,bind,Except.bind,Except.map]
    | ok data =>
      rw [exec_copyStep message messagestart i s value data present inside]
      simp [copyByte,present,inside,erased,bind,Except.bind,pure,Except.pure,Except.map]

private theorem loop_erased (message : Bytes) (messagestart : Nat) (indices : List Nat) (s : Copying) :
    erased (exec (inSequence (indices.map (copyStep message messagestart))) s) =
      indices.foldlM (copyByte message messagestart) (s.startpos,s.data) := by
  induction indices generalizing s with
  | nil => rfl
  | cons i rest ih =>
    have step := copyStep_erased message messagestart i s
    rw [List.map_cons,inSequence,exec_bind,List.foldlM_cons,← step]
    cases exec (copyStep message messagestart i) s with
    | mk result middle =>
      cases result with
      | error fault => rfl
      | ok value => exact ih middle

def insertRest (part : UInt8) (message : Bytes) : CopyM Unit :=
  if copySize (placement part) message.length > message.length then return ()
  else if (placement part).messagestart > message.length then return ()
  else inSequence ((List.range (copySize (placement part) message.length)).map
    (copyStep message (placement part).messagestart))

private theorem exec_insertLogged (part : UInt8) (message : Bytes) (s : Copying) :
    exec (insertLogged part message) s =
      if part = 1 then
        match store s.data 7 (UInt8.ofNat message.length) with
        | .ok data => exec (insertRest part message) ⟨data,(placement part).startpos,s.accesses ++ [.write 7]⟩
        | .error fault => (.error fault,⟨s.data,(placement part).startpos,s.accesses ++ [.write 7]⟩)
      else exec (insertRest part message) {s with startpos := (placement part).startpos} := by
  by_cases first : part = 1
  · subst first
    simp only [insertLogged,exec_bind,exec_modify,if_true,exec_writeData]
    cases store s.data 7 (UInt8.ofNat message.length) <;> rfl
  · simp [insertLogged,exec_bind,first,insertRest]

private theorem insertRest_erased (part : UInt8) (message : Bytes) (s : Copying) :
    (erased (exec (insertRest part message) s)).map Prod.snd =
      if copySize (placement part) message.length > message.length then .ok s.data
      else if (placement part).messagestart > message.length then .ok s.data
      else ((List.range (copySize (placement part) message.length)).foldlM
        (copyByte message (placement part).messagestart) (s.startpos,s.data)).map Prod.snd := by
  unfold insertRest
  split
  · rfl
  · split
    · rfl
    · rw [loop_erased]

/-- Without its log the function is `insertMessage`, on every buffer and text. -/
theorem insertLogged_erased (part : UInt8) (message : Bytes) (s : Copying) :
    (erased (exec (insertLogged part message) s)).map Prod.snd = insertMessage part s.data message := by
  rw [exec_insertLogged]
  unfold insertMessage storeLength
  split
  next first =>
    cases store s.data 7 (UInt8.ofNat message.length) with
    | error fault => rfl
    | ok data => exact insertRest_erased part message _
  next => exact insertRest_erased part message _

def reads (accesses : List Access) : List Nat :=
  accesses.filterMap fun access => match access with
    | .read index => some index
    | .write _ => none

def writes (accesses : List Access) : List Nat :=
  accesses.filterMap fun access => match access with
    | .read _ => none
    | .write index => some index

@[simp] theorem reads_append (first second : List Access) : reads (first ++ second) = reads first ++ reads second :=
  List.filterMap_append ..

@[simp] theorem writes_append (first second : List Access) : writes (first ++ second) = writes first ++ writes second :=
  List.filterMap_append ..

def copied (part : UInt8) (length : Nat) : Nat := min (placement part).size (length - (placement part).messagestart)

/-- The rounds of the copy loop go on side by side through the message and the frame. -/
theorem exec_copyLoop (message : Bytes) (messagestart count : Nat) (s : Copying)
    (available : messagestart + count ≤ message.length) (inside : s.startpos + count ≤ s.data.length)
    (small : s.data.length < 2^8) :
    ∃ final, exec (inSequence ((List.range count).map (copyStep message messagestart))) s = (.ok (),final) ∧
      final.startpos = s.startpos + count ∧
      final.data = overwrite s.data s.startpos ((message.drop messagestart).take count) ∧
      reads final.accesses = reads s.accesses ++ List.range' messagestart count ∧
      writes final.accesses = writes s.accesses ++ List.range' s.startpos count := by
  induction count with
  | zero => exact ⟨s,rfl,rfl,(overwrite_nil _ _).symm,(List.append_nil _).symm,(List.append_nil _).symm⟩
  | succ count ih =>
    obtain ⟨middle,ran,position,buffer,read,written⟩ := ih (by omega) (by omega)
    have room := overwrite_length s.data s.startpos ((message.drop messagestart).take count)
      (by simp only [List.length_take,List.length_drop]; omega)
    have present : messageAt message (count + messagestart) = .ok message[count + messagestart] := by
      rw [messageAt,List.getElem?_eq_getElem (by omega)]
    have stored := store_eq middle.data middle.startpos message[count + messagestart] (by rw [buffer,room,position]; omega)
    have step := exec_copyStep message messagestart count middle _ _ present stored
    -- what the loop does to the frame is known from the function without the log
    have loop := loop_erased message messagestart (List.range (count + 1)) s
    rw [copy_loop message s.data s.startpos messagestart (count + 1) available inside small] at loop
    have whole : exec (inSequence ((List.range (count + 1)).map (copyStep message messagestart))) s =
        exec (copyStep message messagestart count) middle := by
      rw [List.range_succ,List.map_append,exec_inSequence_append,exec_bind_ok ran,List.map_singleton,inSequence,
        exec_bind_ok step,step]
      rfl
    rw [whole,step] at loop ⊢
    obtain ⟨next,bytes⟩ := Prod.mk.inj (Except.ok.inj loop)
    refine ⟨_,rfl,next,bytes,?_,?_⟩
    · rw [reads_append,read,List.append_assoc,List.range'_concat,Nat.one_mul,Nat.add_comm messagestart count]
      rfl
    · rw [writes_append,written,List.append_assoc,List.range'_concat,Nat.one_mul,← position]
      rfl

/-- Of the two tests before the loop either one may stop a message that ends before the
part: the first where the wrapped difference is too large, else the second. -/
theorem exec_insertRest (part : UInt8) (message : Bytes) (s : Copying) (size_t : message.length < 2^64)
    (position : s.startpos = (placement part).startpos) (room : s.data.length = 69) :
    ∃ final, exec (insertRest part message) s = (.ok (),final) ∧
      final.startpos = s.startpos + copied part message.length ∧
      final.data = overwrite s.data s.startpos
        ((message.drop (placement part).messagestart).take (copied part message.length)) ∧
      reads final.accesses = reads s.accesses ++
        List.range' (placement part).messagestart (copied part message.length) ∧
      writes final.accesses = writes s.accesses ++ List.range' s.startpos (copied part message.length) := by
  obtain ⟨fits,_,_,_,_⟩ := placement_bounds part
  by_cases short : message.length < (placement part).messagestart
  · have nothing : copied part message.length = 0 := by
      rw [copied]
      omega
    have stopped : exec (insertRest part message) s = (.ok (),s) := by
      rw [insertRest,if_pos short,ite_self]
      rfl
    refine ⟨s,stopped,?_⟩
    simp [nothing,overwrite_nil]
  · have size : copySize (placement part) message.length = copied part message.length := by
      rw [copySize_long part _ size_t (by omega),copied,Nat.min_comm]
    have bound : copied part message.length ≤ message.length - (placement part).messagestart := Nat.min_le_right ..
    have limit : copied part message.length ≤ (placement part).size := Nat.min_le_left ..
    rw [insertRest,size,if_neg (by omega),if_neg short]
    exact exec_copyLoop message _ _ s (by omega) (by omega) (by omega)

structure StaysInside (part : UInt8) (data message : Bytes) (final : Copying) : Prop where
  result : insertMessage part data message = .ok final.data
  read : reads final.accesses = List.range' (placement part).messagestart (copied part message.length)
  available : ∀ i ∈ reads final.accesses, i < message.length
  written : writes final.accesses =
    (if part = 1 then [7] else []) ++ List.range' (placement part).startpos (copied part message.length)
  inside : ∀ i ∈ writes final.accesses, 4 ≤ i ∧ i ≤ 68
  inside1 : part = 1 → ∀ i ∈ writes final.accesses, 7 ≤ i ∧ i ≤ 67
  startpos : final.startpos = (placement part).startpos + copied part message.length
  bytes : ∀ i < copied part message.length,
    final.data[(placement part).startpos + i]? = message[(placement part).messagestart + i]?

private theorem overwrite_getElem? (data : Bytes) (start : Nat) (run : Bytes) (inside : start ≤ data.length) (i : Nat)
    (bound : i < run.length) : (overwrite data start run)[start + i]? = run[i]? := by
  have front : (data.take start).length = start := by
    rw [List.length_take]
    omega
  rw [overwrite,List.append_assoc,List.getElem?_append_right (by omega),front,Nat.add_sub_cancel_left,
    List.getElem?_append_left bound]

/-- For every part and every text `insertMessage` comes to its end, reads only bytes the
text has, and copies exactly the part's share of them into its own place of the frame. -/
theorem insertMessage_total (part : UInt8) (data message : Bytes) (room : data.length = 69)
    (size_t : message.length < 2^64) :
    ∃ final, exec (insertLogged part message) ⟨data,0,[]⟩ = (.ok (),final) ∧ StaysInside part data message final := by
  obtain ⟨fits,_,_,low,_⟩ := placement_bounds part
  have limit : copied part message.length ≤ (placement part).size := Nat.min_le_left ..
  have rest : copied part message.length ≤ message.length - (placement part).messagestart := Nat.min_le_right ..
  have length := (filled_length part data message).trans room
  obtain ⟨final,ran,position,buffer,read,written⟩ := exec_insertRest part message
    ⟨filled part data message,(placement part).startpos,if part = 1 then [.write 7] else []⟩ size_t rfl length
  dsimp only at position buffer read written
  have started : exec (insertLogged part message) ⟨data,0,[]⟩ = (.ok (),final) := by
    rw [exec_insertLogged,← ran]
    unfold filled
    split
    next => rw [store_eq data 7 _ (by omega)]; rfl
    next => rfl
  have erasure := insertLogged_erased part message ⟨data,0,[]⟩
  rw [started] at erasure
  have header : reads (if part = 1 then [.write 7] else []) = [] ∧
      writes (if part = 1 then [.write 7] else []) = if part = 1 then [7] else [] := by
    split <;> exact ⟨rfl,rfl⟩
  rw [header.1,List.nil_append] at read
  rw [header.2] at written
  refine ⟨final,started,erasure.symm,read,?_,written,?_,?_,position,?_⟩
  · intro i member
    rw [read,List.mem_range'_1] at member
    omega
  · intro i member
    rw [written,List.mem_append,List.mem_range'_1] at member
    rcases member with length_byte | text
    · split at length_byte
      next => simp only [List.mem_singleton] at length_byte; omega
      next => cases length_byte
    · omega
  · rintro rfl i member
    rw [written,List.mem_append,List.mem_range'_1] at member
    change i ∈ [7] ∨ 8 ≤ i ∧ i < 8 + _ at member
    change copied 1 message.length ≤ 60 at limit
    rcases member with length_byte | text
    · simp only [List.mem_singleton] at length_byte
      omega
    · omega
  · intro i bound
    have run : ((message.drop (placement part).messagestart).take (copied part message.length)).length =
        copied part message.length := by
      simp only [List.length_take,List.length_drop]
      omega
    rw [buffer,overwrite_getElem? _ _ _ (by omega) i (by omega),List.getElem?_take_of_lt bound,List.getElem?_drop]

theorem insertMessage_total_short :
    ∃ final, exec (insertLogged 3 (text "Hi!")) ⟨header3,0,[]⟩ = (.ok (),final) ∧ StaysInside 3 header3 (text "Hi!") final :=
  insertMessage_total 3 header3 (text "Hi!") rfl (by decide)

end LEDMessageBoard.Insertion
