import LEDMessageBoard.General.Transfer
import LEDMessageBoard.Context
import Mathlib.Data.List.Forall2
import Mathlib.Data.List.TakeDrop

/-! The serial library under the driver: the loops of `read` and `write`, which wait for the
device with `pselect` and move what it takes or has. -/
namespace LEDMessageBoard.SerialPort
open General.Transfer

/-- What the two loops throw while the port is open. -/
inductive Thrown where
  | ioException
  /-- "device reports readiness to … but returned no data (device disconnected?)" -/
  | disconnected
  /-- more bytes than the call had asked for -/
  | overrun
deriving DecidableEq, Repr

/-- What a round of the loop in `write` meets. -/
inductive WriteRound where
  /-- `timeout_remaining_ms <= 0` -/
  | expired
  /-- `pselect` fails with `EINTR` -/
  | interrupted
  | failed
  | timedOut
  /-- `pselect` succeeds without the descriptor -/
  | unlisted
  /-- how many bytes the device takes, or -1 -/
  | ready (room : Int)

/-- `::write`, which takes at most what it is given. -/
def sysWrite (room : Int) (rest : Bytes) : Int := min room rest.length

/-- `SerialImpl::write` from a number of bytes on: what it returns or throws, none where the
rounds do not bring it to an end, and what has gone out. -/
def write (data : Bytes) (written : Nat) : List WriteRound → Option (Except Thrown Nat) × Bytes
  | [] => (if written < data.length then none else some (.ok written),[])
  | round :: later =>
    if written < data.length then
      match round with
      | .expired => (some (.ok written),[])
      | .interrupted => write data written later
      | .failed => (some (.error .ioException),[])
      | .timedOut => (some (.ok written),[])
      | .unlisted => (some (.error .ioException),[])
      | .ready room =>
        let now := sysWrite room (data.drop written)
        let sent := (data.drop written).take now.toNat
        if now < 1 then (some (.error .disconnected),[])
        else if written + now.toNat = data.length then (some (.ok (written + now.toNat)),sent)
        else if written + now.toNat < data.length then
          let (outcome,others) := write data (written + now.toNat) later
          (outcome,sent ++ others)
        else (some (.error .overrun),sent)
    else (some (.ok written),[])

def WriteRound.moves : WriteRound → Round Thrown
  | .expired | .timedOut => .givesUp
  | .interrupted => .idle
  | .failed | .unlisted => .fails .ioException
  | .ready room => if room < 1 then .fails .disconnected else .accepts room.toNat

/-- What a loop returns or throws at the end of a transfer. -/
def outcome (moved : Nat) : Ending Thrown → Option (Except Thrown Nat)
  | .waits => none
  | .complete | .gaveUp => some (.ok moved)
  | .failed error => some (.error error)

private theorem ready_moves (there : Int) {asked : Nat} (more : 0 < asked) :
    (there < 1 ∧ min there asked < 1) ∨
      (¬there < 1 ∧ ¬min there (asked : Int) < 1 ∧ (min there asked).toNat = min there.toNat asked) := by
  omega

theorem write_eq (data : Bytes) (written : Nat) (rounds : List WriteRound) (inside : written ≤ data.length) :
    write data written rounds =
      (outcome (transfer data.length written (rounds.map WriteRound.moves)).1
          (transfer data.length written (rounds.map WriteRound.moves)).2,
        (data.drop written).take ((transfer data.length written (rounds.map WriteRound.moves)).1 - written)) := by
  induction rounds generalizing written with
  | nil =>
    rw [write,List.map_nil,transfer]
    split
    next => simp [outcome]
    next => simp [outcome]
  | cons round later ih =>
    rw [List.map_cons]
    by_cases below : written < data.length
    · cases round with
      | expired => simp [write,WriteRound.moves,transfer,below,outcome]
      | interrupted =>
        simp only [write,WriteRound.moves,transfer,below,if_true]
        exact ih written inside
      | failed => simp [write,WriteRound.moves,transfer,below,outcome]
      | timedOut => simp [write,WriteRound.moves,transfer,below,outcome]
      | unlisted => simp [write,WriteRound.moves,transfer,below,outcome]
      | ready room =>
        have asked : (data.drop written).length = data.length - written := List.length_drop
        obtain ⟨dead,nothing⟩ | ⟨alive,some_bytes,count⟩ := ready_moves room (Nat.sub_pos_of_lt below)
        · simp only [write,sysWrite,asked,WriteRound.moves,transfer,below,if_true,dead,nothing]
          simp [outcome]
        · simp only [write,sysWrite,asked,WriteRound.moves,transfer,below,if_true,alive,if_false,some_bytes,count]
          generalize taken : min room.toNat (data.length - written) = now
          have fits : written + now ≤ data.length := by omega
          have onward := transfer_bounds (later.map WriteRound.moves) fits
          split
          next whole =>
            rw [whole,transfer_complete,← whole,Nat.add_sub_cancel_left]
            rfl
          next short =>
            rw [if_pos (by omega),ih _ fits]
            have split_there : (transfer data.length (written + now) (later.map WriteRound.moves)).1 - written =
                now + ((transfer data.length (written + now) (later.map WriteRound.moves)).1 - (written + now)) := by omega
            rw [split_there,List.take_add,List.drop_drop]
    · have whole : written = data.length := Nat.le_antisymm inside (Nat.le_of_not_lt below)
      subst whole
      rw [transfer_complete]
      simp [write,outcome]

def WriteRound.GoesOn : WriteRound → Prop
  | .interrupted => True
  | .ready room => 1 ≤ room
  | _ => False

def WriteRound.room : WriteRound → Nat
  | .ready room => room.toNat
  | _ => 0

private theorem moves_on {round : WriteRound} (on : round.GoesOn) : round.moves.goesOn ∧ round.moves.room = round.room := by
  cases round with
  | interrupted => exact ⟨trivial,rfl⟩
  | ready room =>
    have alive : ¬room < 1 := Int.not_lt.mpr on
    have moves : WriteRound.moves (.ready room) = .accepts room.toNat := if_neg alive
    rw [moves]
    exact ⟨trivial,rfl⟩
  | _ => cases on

private theorem moves_causes {rounds : List WriteRound} {ending : Ending Thrown}
    (met : ∀ round, ending.cause = some round → round ∈ rounds.map WriteRound.moves) :
    (ending = .gaveUp → .expired ∈ rounds ∨ .timedOut ∈ rounds) ∧ ending ≠ .failed .overrun := by
  have causes (round : WriteRound) : (round.moves = .givesUp → round = .expired ∨ round = .timedOut) ∧
      round.moves ≠ .fails .overrun := by
    cases round with
    | ready room =>
      have alive_or_dead : WriteRound.moves (.ready room) = .fails .disconnected ∨
          WriteRound.moves (.ready room) = .accepts room.toNat := ite_eq_or_eq _ _ _
      obtain dead | alive := alive_or_dead
      · simp [dead]
      · simp [alive]
    | _ => simp [WriteRound.moves]
  refine ⟨?_,?_⟩
  · intro gave_up
    subst gave_up
    obtain ⟨round,member,same⟩ := List.mem_map.mp (met _ rfl)
    obtain expired | timed_out := (causes round).1 same
    · exact .inl (expired ▸ member)
    · exact .inr (timed_out ▸ member)
  · intro failed
    subst failed
    obtain ⟨round,_,same⟩ := List.mem_map.mp (met _ rfl)
    exact (causes round).2 same

theorem outcome_ok {moved returned : Nat} {ending : Ending Thrown} (ok : outcome moved ending = some (.ok returned)) :
    returned = moved ∧ (ending = .complete ∨ ending = .gaveUp) := by
  cases ending with
  | complete =>
    cases ok
    exact ⟨rfl,.inl rfl⟩
  | gaveUp =>
    cases ok
    exact ⟨rfl,.inr rfl⟩
  | waits => cases ok
  | failed => cases ok

theorem write_returns {data : Bytes} {rounds : List WriteRound} {count : Nat}
    (returns : (write data 0 rounds).1 = some (.ok count)) :
    (write data 0 rounds).2 = data.take count ∧ count ≤ data.length ∧
      (count < data.length → .expired ∈ rounds ∨ .timedOut ∈ rounds) := by
  have inside : 0 ≤ data.length := Nat.zero_le _
  rw [write_eq data 0 rounds inside,List.drop_zero,Nat.sub_zero] at returns ⊢
  obtain ⟨moved,ended⟩ := outcome_ok returns
  have bound := (transfer_bounds (rounds.map WriteRound.moves) inside).2
  rw [← moved] at bound ⊢
  refine ⟨rfl,bound,?_⟩
  intro short
  have met (round : Round Thrown) (caused : (transfer data.length 0 (rounds.map WriteRound.moves)).2.cause = some round) :
      round ∈ rounds.map WriteRound.moves := cause_met _ caused
  obtain complete | gave_up := ended
  · have whole := (complete_iff _ inside).mp complete
    omega
  · exact (moves_causes met).1 gave_up

/-- Whatever the device takes at a time, a write sends the front of its data, each byte once
and in order. It returns how many, fewer than all of them only after a timeout. -/
theorem write_sends (data : Bytes) (rounds : List WriteRound) :
    ∃ count ≤ data.length, (write data 0 rounds).2 = data.take count ∧
      (∀ returned, (write data 0 rounds).1 = some (.ok returned) →
        returned = count ∧ (count < data.length → .expired ∈ rounds ∨ .timedOut ∈ rounds)) ∧
      (write data 0 rounds).1 ≠ some (.error .overrun) ∧
      ((∀ round ∈ rounds, round.GoesOn) → data.length ≤ (rounds.map WriteRound.room).sum →
        write data 0 rounds = (some (.ok data.length),data)) := by
  have inside : 0 ≤ data.length := Nat.zero_le _
  have met (round : Round Thrown) (caused : (transfer data.length 0 (rounds.map WriteRound.moves)).2.cause = some round) :
      round ∈ rounds.map WriteRound.moves := cause_met _ caused
  have ended := write_eq data 0 rounds inside
  rw [List.drop_zero,Nat.sub_zero] at ended
  refine ⟨_,(transfer_bounds (rounds.map WriteRound.moves) inside).2,by rw [ended],?_,?_,?_⟩
  · intro returned same
    have late := (write_returns same).2.2
    rw [ended] at same
    rw [← (outcome_ok same).1]
    exact ⟨rfl,late⟩
  · rw [ended]
    intro overrun
    have fits := (moves_causes met).2
    revert overrun fits
    cases (transfer data.length 0 (rounds.map WriteRound.moves)).2 with
    | failed error =>
      intro overrun fits
      cases overrun
      exact fits rfl
    | _ => exact nofun
  · intro on room
    have enough : transfer data.length 0 (rounds.map WriteRound.moves) = (data.length,.complete) := by
      apply transfer_enough _ inside
      · intro round member
        obtain ⟨source,from_rounds,same⟩ := List.mem_map.mp member
        exact same ▸ (moves_on (on source from_rounds)).1
      · have same : (rounds.map WriteRound.moves).map Round.room = rounds.map WriteRound.room := by
          rw [List.map_map]
          exact List.map_congr_left fun round member => (moves_on (on round member)).2
        rw [same,Nat.zero_add]
        exact room
    rw [ended,enough,List.take_length]
    rfl

/-- Three bytes at a time, interrupted once. -/
example : write (text "Hello") 0 [.ready 3,.interrupted,.ready 3] = (some (.ok 5),text "Hello") := by decide

section Reads

/-- What a round of the loop in `read` meets. -/
inductive ReadRound where
  | expired
  /-- `waitReadable` is false: a timeout between two bytes, or `EINTR` -/
  | quiet
  | failed
  | unlisted
  /-- whether `available` has a count, and how many bytes there are, or -1 -/
  | ready (counted : Bool) (there : Int)

/-- The bytes that come in, each under its number. -/
abbrev Arrivals := Nat → UInt8

def arrived (arrivals : Arrivals) (start count : Nat) : Bytes := (List.range' start count).map arrivals

private theorem arrived_append (arrivals : Arrivals) (start first second : Nat) :
    arrived arrivals start first ++ arrived arrivals (start + first) second = arrived arrivals start (first + second) := by
  rw [arrived,arrived,← List.map_append,List.range'_append_1,arrived]

/-- `::read`, which brings at most what it is asked for. -/
def sysRead (there : Int) (asked : Nat) : Int := min there asked

/-- `Timeout::max()` -/
def forever : UInt32 := 0xFFFFFFFF

/-- The loop of `SerialImpl::read` from a number of bytes on, in the shape of `write`: what has
come in is in the buffer of the caller. -/
def readLoop (interByte : UInt32) (arrivals : Arrivals) (start size : Nat) (taken : Nat) :
    List ReadRound → Option (Except Thrown Nat) × Bytes
  | [] => (if taken < size then none else some (.ok taken),[])
  | round :: later =>
    if taken < size then
      match round with
      | .expired => (some (.ok taken),[])
      | .quiet => readLoop interByte arrivals start size taken later
      | .failed => (some (.error .ioException),[])
      | .unlisted => (some (.error .ioException),[])
      | .ready counted there =>
        if 1 < size ∧ interByte = forever ∧ counted = false then (some (.error .ioException),[])
        else
          let now := sysRead there (size - taken)
          let got := arrived arrivals (start + taken) now.toNat
          if now < 1 then (some (.error .disconnected),[])
          else if taken + now.toNat = size then (some (.ok (taken + now.toNat)),got)
          else if taken + now.toNat < size then
            let (outcome,others) := readLoop interByte arrivals start size (taken + now.toNat) later
            (outcome,got ++ others)
          else (some (.error .overrun),got)
    else (some (.ok taken),[])

/-- What is taken before the loop, without waiting. -/
def atOnce (there : Int) (size : Nat) : Nat := if 0 < sysRead there size then (sysRead there size).toNat else 0

def read (interByte : UInt32) (arrivals : Arrivals) (start size : Nat) (there : Int) (rounds : List ReadRound) :
    Option (Except Thrown Nat) × Bytes :=
  let (outcome,others) := readLoop interByte arrivals start size (atOnce there size) rounds
  (outcome,arrived arrivals start (atOnce there size) ++ others)

def ReadRound.moves (interByte : UInt32) (size : Nat) : ReadRound → Round Thrown
  | .expired => .givesUp
  | .quiet => .idle
  | .failed | .unlisted => .fails .ioException
  | .ready counted there =>
    if 1 < size ∧ interByte = forever ∧ counted = false then .fails .ioException
    else if there < 1 then .fails .disconnected
    else .accepts there.toNat

private theorem readLoop_eq (interByte : UInt32) (arrivals : Arrivals) (start size taken : Nat) (rounds : List ReadRound)
    (inside : taken ≤ size) :
    readLoop interByte arrivals start size taken rounds =
      (outcome (transfer size taken (rounds.map (ReadRound.moves interByte size))).1
          (transfer size taken (rounds.map (ReadRound.moves interByte size))).2,
        arrived arrivals (start + taken) ((transfer size taken (rounds.map (ReadRound.moves interByte size))).1 - taken)) := by
  induction rounds generalizing taken with
  | nil =>
    rw [readLoop,List.map_nil,transfer]
    split
    next => simp [outcome,arrived]
    next => simp [outcome,arrived]
  | cons round later ih =>
    rw [List.map_cons]
    by_cases below : taken < size
    · cases round with
      | expired => simp [readLoop,ReadRound.moves,transfer,below,outcome,arrived]
      | quiet =>
        simp only [readLoop,ReadRound.moves,transfer,below,if_true]
        exact ih taken inside
      | failed => simp [readLoop,ReadRound.moves,transfer,below,outcome,arrived]
      | unlisted => simp [readLoop,ReadRound.moves,transfer,below,outcome,arrived]
      | ready counted there =>
        by_cases uncounted : 1 < size ∧ interByte = forever ∧ counted = false
        · have fails : ReadRound.moves interByte size (.ready counted there) = .fails .ioException := if_pos uncounted
          rw [fails]
          simp [readLoop,transfer,below,outcome,arrived,uncounted]
        obtain ⟨dead,nothing⟩ | ⟨alive,some_bytes,count⟩ := ready_moves there (Nat.sub_pos_of_lt below)
        · have fails : ReadRound.moves interByte size (.ready counted there) = .fails .disconnected := by
            rw [ReadRound.moves,if_neg uncounted,if_pos dead]
          rw [fails]
          simp [readLoop,sysRead,transfer,below,outcome,arrived,uncounted,nothing]
        · have moves : ReadRound.moves interByte size (.ready counted there) = .accepts there.toNat := by
            rw [ReadRound.moves,if_neg uncounted,if_neg alive]
          rw [moves]
          simp only [readLoop,sysRead,transfer,below,if_true,uncounted,if_false,some_bytes,count]
          generalize brought : min there.toNat (size - taken) = now
          have fits : taken + now ≤ size := by omega
          have onward := transfer_bounds (later.map (ReadRound.moves interByte size)) fits
          split
          next whole =>
            rw [whole,transfer_complete,← whole,Nat.add_sub_cancel_left]
            rfl
          next short =>
            have rest : (transfer size (taken + now) (later.map (ReadRound.moves interByte size))).1 - taken =
                now + ((transfer size (taken + now) (later.map (ReadRound.moves interByte size))).1 - (taken + now)) := by omega
            rw [if_pos (by omega),ih _ fits,rest,← arrived_append,Nat.add_assoc]
    · have whole : taken = size := Nat.le_antisymm inside (Nat.le_of_not_lt below)
      subst whole
      rw [transfer_complete]
      simp [readLoop,outcome,arrived]

private theorem moves_gives_up {interByte : UInt32} {size : Nat} {round : ReadRound}
    (same : round.moves interByte size = .givesUp) : round = .expired := by
  cases round with
  | expired => rfl
  | ready counted there =>
    rw [ReadRound.moves] at same
    split at same
    next => cases same
    next =>
      split at same
      next => cases same
      next => cases same
  | _ => cases same

private theorem read_returns {interByte : UInt32} {arrivals : Arrivals} {start size : Nat} {there : Int}
    {rounds : List ReadRound}
    {count : Nat} {bytes : Bytes} (returns : read interByte arrivals start size there rounds = (some (.ok count),bytes)) :
    bytes = arrived arrivals start count ∧ count ≤ size ∧ (count < size → .expired ∈ rounds) := by
  unfold read at returns
  have inside : atOnce there size ≤ size := by
    unfold atOnce sysRead
    split
    next => omega
    next => exact Nat.zero_le _
  revert returns inside
  generalize atOnce there size = taken
  intro returns inside
  rw [readLoop_eq interByte arrivals start size taken rounds inside] at returns
  dsimp only at returns
  rw [arrived_append] at returns
  obtain ⟨ok,same⟩ := Prod.mk.inj returns
  obtain ⟨moved,ended⟩ := outcome_ok ok
  have bounds := transfer_bounds (rounds.map (ReadRound.moves interByte size)) inside
  rw [← moved,Nat.add_sub_cancel' (moved ▸ bounds.1)] at same
  refine ⟨same.symm,moved ▸ bounds.2,?_⟩
  intro short
  obtain complete | gave_up := ended
  · have whole := (complete_iff _ inside).mp complete
    omega
  · have met := @cause_met _ (rounds.map (ReadRound.moves interByte size)) size taken .givesUp (by rw [gave_up]; rfl)
    obtain ⟨round,member,gives_up⟩ := List.mem_map.mp met
    exact moves_gives_up gives_up ▸ member

/-- A call of `read`, and what it meets. -/
structure Call where
  size : Nat
  there : Int
  rounds : List ReadRound

/-- Calls one after the other, as long as they return. -/
def reads (interByte : UInt32) (arrivals : Arrivals) (start : Nat) : List Call → Option (List Bytes × Nat)
  | [] => some ([],start)
  | call :: rest =>
    match read interByte arrivals start call.size call.there call.rounds with
    | (some (.ok count),bytes) => (reads interByte arrivals (start + count) rest).map fun (parts,last) => (bytes :: parts,last)
    | _ => none

/-- What calls return is what has come in, each byte once and in order, wherever the calls
and their timeouts cut it. -/
theorem reads_consecutive (interByte : UInt32) (arrivals : Arrivals) (start : Nat) (calls : List Call) (parts : List Bytes)
    (last : Nat) (returned : reads interByte arrivals start calls = some (parts,last)) :
    start ≤ last ∧ parts.flatten = arrived arrivals start (last - start) ∧
      List.Forall₂ (fun (call : Call) part => part.length ≤ call.size ∧ (part.length < call.size → .expired ∈ call.rounds))
        calls parts := by
  induction calls generalizing start parts with
  | nil =>
    cases returned
    exact ⟨Nat.le_refl _,by simp [arrived],.nil⟩
  | cons call rest ih =>
    rw [reads] at returned
    split at returned
    next count bytes ran =>
      obtain ⟨bytes_arrived,fits,short⟩ := read_returns ran
      obtain ⟨⟨following,final⟩,others,same⟩ := Option.map_eq_some_iff.mp returned
      cases same
      obtain ⟨onward,flat,each⟩ := ih (start + count) following others
      have size : bytes.length = count := by simp [bytes_arrived,arrived]
      refine ⟨by omega,?_,.cons ⟨by omega,fun below => short (by omega)⟩ each⟩
      have whole : last - start = count + (last - (start + count)) := by omega
      rw [List.flatten_cons,flat,bytes_arrived,arrived_append,whole]
    next => cases returned

/-- The answer to the inquiry, after a pause, and a read that stops at what there is. -/
theorem reads_consecutive_reply :
    0 ≤ 3 ∧ [[(0x55 : UInt8)],[0x56,0x57]].flatten = arrived (fun number => 0x55 + number.toUInt8) 0 (3 - 0) ∧
      List.Forall₂ (fun (call : Call) part => part.length ≤ call.size ∧ (part.length < call.size → .expired ∈ call.rounds))
        [⟨1,-1,[.quiet,.ready true 1]⟩,⟨4,2,[.expired]⟩] [[(0x55 : UInt8)],[0x56,0x57]] :=
  reads_consecutive forever _ 0 [⟨1,-1,[.quiet,.ready true 1]⟩,⟨4,2,[.expired]⟩] _ 3 rfl

end Reads

end LEDMessageBoard.SerialPort
