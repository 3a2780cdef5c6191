import LEDMessageBoard.FileMonitor
import LEDMessageBoard.General.Transition

/-! The way of a text from a message file to `setMessage`, with any number of writers,
CLI clients and the monitor thread taking their steps in any order. -/
namespace LEDMessageBoard.FileChannel
open General General.Program Config Driver Cli InotifyEngine Delivery Daemon FileMonitor

structure Writer where
  slot : Int32
  offset : Nat
deriving DecidableEq, Repr

/-- The monitor thread, once it has its `lmbctx`. -/
inductive Monitor where
  /-- In `getNextEvent`, with its local vector. -/
  | waiting (events : List FileSystemEvent)
  | reading (event : FileSystemEvent) (sofar : Bytes)
  /-- Waiting for `io_mutex` with the message. -/
  | passing (event : FileSystemEvent) (message : Bytes)

/-- `passed` is what the monitor last gave to `setMessage` for a slot, `written` says that
the slot's file has been closed by a writer since it is watched. -/
structure Channel where
  contents : Bytes → Bytes
  writers : List Writer
  kernel : List Record
  inotify : Inotify
  clock : Int
  monitor : Monitor
  world : World
  passed : Int32 → Option Bytes
  written : Int32 → Bool

inductive Action where
  | openTruncate (slot : Int32)
  | write (writer : Nat) (chunk : Bytes)
  | close (writer : Nat) (merged : Bool)
  | kernelRead (read : Read)
  | pop
  | readPiece (count : Nat)
  | endOfFile
  | pass (line : Line)
  | cli (command : Command) (host : Host) (args : Args)

/-- Bytes written at an offset; a gap behind the end is filled with zeros. -/
def writeAt (content : Bytes) (offset : Nat) (chunk : Bytes) : Bytes :=
  content.take offset ++ List.replicate (offset - content.length) 0 ++ chunk ++ content.drop (offset + chunk.length)

def closeRecord (slot : Int32) : Record := ⟨slot,0x8⟩

/-- The queue after a close. A record may be merged with an identical last one. -/
def closedQueue (kernel : List Record) (record : Record) (merged : Bool) : List Record :=
  if merged ∧ kernel.getLast? = some record then kernel else kernel ++ [record]

inductive Step (monpath : Bytes) : System Channel Action where
  | openTruncate {c : Channel} (slot : Int32) (within : slot ∈ slots 6) :
    Step monpath c (.openTruncate slot) {c with
      contents := Function.update c.contents (messageFile monpath slot) []
      writers := c.writers ++ [⟨slot,0⟩]}
  | write {c : Channel} (i : Nat) (chunk : Bytes) (writer : Writer) (is_open : c.writers[i]? = some writer) :
    Step monpath c (.write i chunk) {c with
      contents := Function.update c.contents (messageFile monpath writer.slot)
        (writeAt (c.contents (messageFile monpath writer.slot)) writer.offset chunk)
      writers := c.writers.set i {writer with offset := writer.offset + chunk.length}}
  | close {c : Channel} (i : Nat) (merged : Bool) (writer : Writer) (is_open : c.writers[i]? = some writer) :
    Step monpath c (.close i merged) {c with
      writers := c.writers.eraseIdx i
      kernel := closedQueue c.kernel (closeRecord writer.slot) merged
      written := Function.update c.written writer.slot true}
  | kernelRead {c : Channel} (events : List FileSystemEvent) (read : Read) (rest : List Record)
    (waits : c.monitor = .waiting events) (drained : c.inotify.mEventQueue = []) (some_record : read.records ≠ [])
    (batch : c.kernel = read.records ++ rest) (onward : c.clock ≤ read.clock) :
    Step monpath c (.kernelRead read) {c with
      kernel := rest
      inotify := (absorb c.inotify events read).1
      clock := read.clock
      monitor := .waiting (absorb c.inotify events read).2}
  | pop {c : Channel} (events : List FileSystemEvent) (event : FileSystemEvent) (inotify : Inotify)
    (waits : c.monitor = .waiting events) (popped : InotifyEngine.pop c.inotify = some (event,inotify)) :
    Step monpath c .pop {c with inotify := inotify,monitor := .reading event []}
  | readPiece {c : Channel} (event : FileSystemEvent) (sofar : Bytes) (count : Nat) (reads : c.monitor = .reading event sofar)
    (more : sofar.length < (c.contents event.path).length) :
    Step monpath c (.readPiece count) {c with
      monitor := .reading event (sofar ++ ((c.contents event.path).drop sofar.length).take (count + 1))}
  | endOfFile {c : Channel} (event : FileSystemEvent) (sofar : Bytes) (reads : c.monitor = .reading event sofar)
    (done : (c.contents event.path).length ≤ sofar.length) :
    Step monpath c .endOfFile {c with monitor := .passing event (withoutNewlines sofar)}
  -- `io_mutex` makes the operations of the monitor and of the clients one step each
  | pass {c : Channel} (event : FileSystemEvent) (message : Bytes) (line : Line) (world : World)
    (has : c.monitor = .passing event message) (ran : exec (deliver line event.wd message) c.world = (.ok (),world)) :
    Step monpath c (.pass line) {c with
      world := world
      monitor := .waiting []
      passed := Function.update c.passed event.wd (some message)}
  | cli {c : Channel} (command : Command) (host : Host) (args : Args) (world : World)
    (ran : exec (command.handler host args) c.world = (.ok (),world)) :
    Step monpath c (.cli command host args) {c with world := world}

private theorem pop_step (monpath : Bytes) (c : Channel) (events : List FileSystemEvent) (event : FileSystemEvent)
    (tail : List FileSystemEvent) (waits : c.monitor = .waiting events) (queue : c.inotify.mEventQueue = event :: tail) :
    Step monpath c .pop {c with inotify := {c.inotify with mEventQueue := tail},monitor := .reading event []} := by
  apply Step.pop events event _ waits
  rw [InotifyEngine.pop,queue]

/-- `getNextEvent` is a read of the kernel's queue for each pass of its loop and then a pop. -/
theorem nextEvent_steps (monpath : Bytes) (reads : List Read) (c : Channel) (events : List FileSystemEvent)
    (event : FileSystemEvent) (last : Inotify) (rest : List Read) (later : List Record) (waits : c.monitor = .waiting events)
    (records : ∀ read ∈ reads, read.records ≠ []) (onward : (c.clock :: reads.map Read.clock).IsChain (· ≤ ·))
    (kernel : c.kernel = reads.flatMap Read.records ++ later)
    (ran : nextEvent c.inotify events reads = some (event,last,rest)) :
    ∃ used clock, reads = used ++ rest ∧ System.Run (Step monpath) c (used.map .kernelRead ++ [.pop])
      {c with kernel := rest.flatMap Read.records ++ later,inotify := last,clock := clock,monitor := .reading event []} := by
  refine nextEvent_induct (fun inotify events reads event last rest => ∀ c : Channel, c.inotify = inotify →
    c.monitor = .waiting events → (∀ read ∈ reads, read.records ≠ []) →
    (c.clock :: reads.map Read.clock).IsChain (· ≤ ·) → c.kernel = reads.flatMap Read.records ++ later →
    ∃ used clock, reads = used ++ rest ∧ System.Run (Step monpath) c (used.map .kernelRead ++ [.pop])
      {c with kernel := rest.flatMap Read.records ++ later,inotify := last,clock := clock,monitor := .reading event []})
    ?_ ?_ reads c.inotify events event last rest ran c rfl waits records onward kernel
  · rintro _ events reads event tail queue c rfl waits _ _ kernel
    refine ⟨[],c.clock,rfl,?_⟩
    rw [← kernel]
    exact System.Run.start.next (pop_step monpath c events event tail waits queue)
  · rintro _ events read reads event last rest queue ih c rfl waits records onward kernel
    rw [List.flatMap_cons,List.append_assoc] at kernel
    obtain ⟨sooner,afterwards⟩ := List.isChain_cons_cons.mp onward
    let middle : Channel := {c with
      kernel := reads.flatMap Read.records ++ later
      inotify := (absorb c.inotify events read).1
      clock := read.clock
      monitor := .waiting (absorb c.inotify events read).2}
    have step : Step monpath c (.kernelRead read) middle :=
      .kernelRead events read _ waits queue (records read (by simp)) kernel sooner
    obtain ⟨used,clock,same,run⟩ := ih middle rfl rfl (fun other member => records other (by simp [member])) afterwards rfl
    refine ⟨read :: used,clock,by rw [same]; rfl,?_⟩
    exact run.cons step

def Channel.Open (c : Channel) (slot : Int32) : Prop := slot ∈ c.writers.map Writer.slot

def Channel.Pending (c : Channel) (slot : Int32) : Prop :=
  slot ∈ c.kernel.map Record.wd ∨ slot ∈ c.inotify.mEventQueue.map FileSystemEvent.wd

instance (c : Channel) (slot : Int32) : Decidable (c.Open slot) := inferInstanceAs (Decidable (_ ∈ _))

instance (c : Channel) (slot : Int32) : Decidable (c.Pending slot) := inferInstanceAs (Decidable (_ ∨ _))

def Monitor.Handles (monitor : Monitor) (slot : Int32) : Prop :=
  match monitor with
  | .waiting _ => False
  | .reading event _ => event.wd = slot
  | .passing event _ => event.wd = slot

/-- What the monitor has of the slot's file is not outdated. -/
def Monitor.UpToDate (monitor : Monitor) (content : Bytes) : Prop :=
  match monitor with
  | .waiting _ => False
  | .reading _ sofar => sofar <+: content
  | .passing _ message => message = withoutNewlines content

/-- The text of the slot will still arrive, or it has arrived. -/
def Channel.Settles (monpath : Bytes) (c : Channel) (slot : Int32) : Prop :=
  c.Open slot ∨ c.Pending slot ∨
  (c.monitor.Handles slot ∧ c.monitor.UpToDate (c.contents (messageFile monpath slot))) ∨
  (¬c.monitor.Handles slot ∧ c.passed slot = some (withoutNewlines (c.contents (messageFile monpath slot))))

def slotPaths (monpath : Bytes) (wd : Int32) : Bytes := if wd ∈ slots 6 then messageFile monpath wd else []

/-- All six files are watched, with the slot as the descriptor. `time(NULL)` counts from
0, and what was closed since a file is watched is still in the kernel's queue. -/
structure Watching (monpath : Bytes) (c : Channel) : Prop where
  writers : ∀ writer ∈ c.writers, writer.slot ∈ slots 6
  records : ∀ record ∈ c.kernel, record.wd ∈ slots 6
  plain : Plain (slotPaths monpath) c.inotify
  queue : c.inotify.mEventQueue = []
  time : c.inotify.mLastEventTime = 0
  clock : 0 ≤ c.clock
  monitor : c.monitor = .waiting []
  written : ∀ slot, c.written slot = true → slot ∈ c.kernel.map Record.wd

def SlotEvent (monpath : Bytes) (event : FileSystemEvent) : Prop :=
  event.wd ∈ slots 6 ∧ event.path = messageFile monpath event.wd

structure Invariant (monpath : Bytes) (c : Channel) : Prop where
  writers : ∀ writer ∈ c.writers, writer.slot ∈ slots 6
  records : ∀ record ∈ c.kernel, record.wd ∈ slots 6
  plain : Plain (slotPaths monpath) c.inotify
  queue : ∀ event ∈ c.inotify.mEventQueue, SlotEvent monpath event
  clock : c.inotify.mLastEventTime ≤ c.clock
  idle : ∀ events, c.monitor = .waiting events → c.inotify.mEventQueue = [] → events = []
  reading : ∀ event sofar, c.monitor = .reading event sofar → SlotEvent monpath event
  passing : ∀ event message, c.monitor = .passing event message → SlotEvent monpath event
  settles : ∀ slot ∈ slots 6, c.written slot = true → c.Settles monpath slot

/-- The channel when `FileMonitor::init` has created the files and the thread starts. -/
def Channel.idle (inotify : Inotify) (clock : Int) (world : World) : Channel where
  contents _ := []
  writers := []
  kernel := []
  inotify := inotify
  clock := clock
  monitor := .waiting []
  world := world
  passed _ := none
  written _ := false

private theorem fileOf_slots (monpath : Bytes) (attempts : Int32 → Attempt)
    (all : ∀ slot ∈ slots 6, present attempts slot = true)
    (kernel : FileMonitor.Kernel) (watches : kernel.watches = ((slots 6).filter (present attempts)).map (messageFile monpath))
    (wd : Int32) : (kernel.fileOf wd).getD [] = slotPaths monpath wd := by
  have place (wd slot : Int32) (within : slot ∈ slots 6) (file : kernel.fileOf wd = some (messageFile monpath slot)) :
      wd = slot :=
    (watched_place monpath attempts kernel watches wd slot within file).2.mpr fun other member _ => all other member
  unfold slotPaths
  split
  next within =>
    obtain ⟨other,file⟩ := present_watched monpath attempts kernel watches wd within (all wd within)
    have same := place other wd within file
    subst same
    rw [file]
    rfl
  next outside =>
    cases found : kernel.fileOf wd with
    | none => rfl
    | some path =>
      have member : path ∈ kernel.watches := by
        unfold FileMonitor.Kernel.fileOf at found
        split at found
        next => exact List.mem_of_getElem? found
        next => cases found
      rw [watches,List.filter_eq_self.mpr all] at member
      obtain ⟨slot,within,rfl⟩ := List.mem_map.mp member
      have same := place wd slot within found
      subst same
      exact absurd within outside

/-- A successful `init` that meets no missing message file watches all six. -/
theorem init_watching (files : FileSystem) (removable : Bool) (attempts : Int32 → Attempt) (ctx : LMBCTX) (six : ctx.SixSlots)
    (inotify : Inotify) (kernel : FileMonitor.Kernel)
    (ran : FileMonitor.init files removable attempts ctx closeWrite ⟨[]⟩ = .ok (true,inotify,kernel))
    (all : ∀ slot ∈ slots 6, present attempts slot = true) (clock : Int) (later : 0 ≤ clock) (world : World) :
    Watching ctx.monitorpath (.idle inotify clock world) := by
  obtain ⟨inStep,watches⟩ := init_success files removable attempts ctx six inotify kernel ran
  refine ⟨?_,?_,⟨inStep.timeout,inStep.ignored,inStep.onceIgnored,?_⟩,inStep.queue,inStep.time,later,rfl,?_⟩
  · intro writer none
    cases none
  · intro record none
    cases none
  · intro wd
    change (inotify.mDirectorieMap wd).getD [] = _
    rw [inStep.paths wd]
    exact fileOf_slots ctx.monitorpath attempts all kernel watches wd
  · intro slot written
    cases written

private theorem watching_invariant (monpath : Bytes) (c : Channel) (watching : Watching monpath c) : Invariant monpath c := by
  refine ⟨watching.writers,watching.records,watching.plain,?_,?_,?_,?_,?_,?_⟩
  · rw [watching.queue]
    intro event none
    cases none
  · rw [watching.time]
    exact watching.clock
  · intro events waits _
    rw [watching.monitor] at waits
    cases waits
    rfl
  · intro event sofar reads
    rw [watching.monitor] at reads
    cases reads
  · intro event message has
    rw [watching.monitor] at has
    cases has
  · intro slot _ written
    exact .inr (.inl (.inl (watching.written slot written)))

variable {monpath : Bytes} {c : Channel}

/-- Writing one file settles its slot, since a writer has it open, and leaves the others
as they are. -/
theorem Channel.Settles.overwritten (own : Int32) (within : own ∈ slots 6) (content : Bytes) (writers : List Writer)
    (opened : own ∈ writers.map Writer.slot) (kept : ∀ slot, c.Open slot → slot ∈ writers.map Writer.slot)
    (slot : Int32) (member : slot ∈ slots 6) (settles : c.Settles monpath slot) :
    Channel.Settles monpath {c with
      contents := Function.update c.contents (messageFile monpath own) content,writers := writers} slot := by
  by_cases same : slot = own
  · subst same
    exact .inl opened
  · have other : messageFile monpath slot ≠ messageFile monpath own := fun equal =>
      same (messageFile_inj monpath slot own member within equal)
    have unchanged : Function.update c.contents (messageFile monpath own) content (messageFile monpath slot) =
        c.contents (messageFile monpath slot) := Function.update_of_ne other ..
    rcases settles with open_still | pending | handled | arrived
    · exact .inl (kept slot open_still)
    · exact .inr (.inl pending)
    · refine .inr (.inr (.inl ⟨handled.1,?_⟩))
      dsimp only
      rw [unchanged]
      exact handled.2
    · refine .inr (.inr (.inr ⟨arrived.1,?_⟩))
      dsimp only
      rw [unchanged]
      exact arrived.2

theorem Invariant.openTruncate (holds : Invariant monpath c) (slot : Int32) (last : Channel)
    (step : Step monpath c (.openTruncate slot) last) : Invariant monpath last := by
  cases step with
  | openTruncate _ within =>
    refine ⟨?_,holds.records,holds.plain,holds.queue,holds.clock,holds.idle,holds.reading,holds.passing,?_⟩
    · intro writer member
      rcases List.mem_append.mp member with old | new
      · exact holds.writers writer old
      · rw [List.mem_singleton.mp new]
        exact within
    · intro other member written
      have opened : slot ∈ (c.writers ++ [Writer.mk slot 0]).map Writer.slot := by simp
      have kept (earlier : Int32) (was_open : c.Open earlier) :
          earlier ∈ (c.writers ++ [Writer.mk slot 0]).map Writer.slot := by
        rw [List.map_append]
        exact List.mem_append_left _ was_open
      exact (holds.settles other member written).overwritten slot within [] _ opened kept other member

private theorem written_slots (writers : List Writer) (i : Nat) (writer : Writer) (is_open : writers[i]? = some writer)
    (offset : Nat) :
    (writers.set i {writer with offset := offset}).map Writer.slot = writers.map Writer.slot := by
  obtain ⟨bound,here⟩ := List.getElem?_eq_some_iff.mp is_open
  have inside : i < (writers.map Writer.slot).length := by
    rw [List.length_map]
    exact bound
  have same : (writers.map Writer.slot)[i] = writer.slot := by rw [List.getElem_map,here]
  rw [List.map_set,← same,List.set_getElem_self]

theorem Invariant.write (holds : Invariant monpath c) (i : Nat) (chunk : Bytes) (last : Channel)
    (step : Step monpath c (.write i chunk) last) : Invariant monpath last := by
  cases step with
  | write _ _ writer is_open =>
    have slots_kept := written_slots c.writers i writer is_open (writer.offset + chunk.length)
    have opened : writer ∈ c.writers := List.mem_of_getElem? is_open
    refine ⟨?_,holds.records,holds.plain,holds.queue,holds.clock,holds.idle,holds.reading,holds.passing,?_⟩
    · intro moved member
      have slot_member : moved.slot ∈ c.writers.map Writer.slot := by
        rw [← slots_kept]
        exact List.mem_map_of_mem member
      obtain ⟨earlier,was_open,same⟩ := List.mem_map.mp slot_member
      rw [← same]
      exact holds.writers earlier was_open
    · intro slot member written
      apply (holds.settles slot member written).overwritten writer.slot (holds.writers writer opened)
      · rw [slots_kept]
        exact List.mem_map_of_mem opened
      · intro slot opened
        rw [slots_kept]
        exact opened
      · exact member

private theorem closedQueue_record (kernel : List Record) (record : Record) (merged : Bool) :
    record ∈ closedQueue kernel record merged := by
  unfold closedQueue
  split
  next same => exact List.mem_of_getLast? same.2
  next => exact List.mem_append_right _ List.mem_cons_self

private theorem mem_closedQueue (kernel : List Record) (record : Record) (merged : Bool) (other : Record) :
    other ∈ closedQueue kernel record merged ↔ other ∈ kernel ∨ other = record := by
  constructor
  · intro member
    unfold closedQueue at member
    split at member
    next => exact .inl member
    next =>
      rcases List.mem_append.mp member with old | new
      · exact .inl old
      · exact .inr (List.mem_singleton.mp new)
  · rintro (old | rfl)
    · unfold closedQueue
      split
      next => exact old
      next => exact List.mem_append_left _ old
    · exact closedQueue_record kernel _ merged

/-- Closing one file takes no writer from the other slots, and no record from the queue. -/
theorem Channel.Settles.closed (i : Nat) (merged : Bool) (writer : Writer) (is_open : c.writers[i]? = some writer)
    (written : Int32 → Bool) (slot : Int32) (apart : slot ≠ writer.slot) (settles : c.Settles monpath slot) :
    Channel.Settles monpath {c with
      writers := c.writers.eraseIdx i
      kernel := closedQueue c.kernel (closeRecord writer.slot) merged
      written := written} slot := by
  rcases settles with open_still | pending | settled
  · left
    obtain ⟨other,was_open,other_slot⟩ := List.mem_map.mp open_still
    obtain ⟨j,found⟩ := List.mem_iff_getElem?.mp was_open
    have different : j ≠ i := by
      rintro rfl
      rw [is_open] at found
      cases found
      exact apart other_slot.symm
    exact List.mem_map.mpr ⟨other,List.mem_eraseIdx_iff_getElem?.mpr ⟨j,different,found⟩,other_slot⟩
  · right
    left
    rcases pending with record_pending | event_pending
    · left
      obtain ⟨record,was_queued,record_slot⟩ := List.mem_map.mp record_pending
      have queued : record ∈ closedQueue c.kernel (closeRecord writer.slot) merged :=
        (mem_closedQueue ..).mpr (.inl was_queued)
      exact List.mem_map.mpr ⟨record,queued,record_slot⟩
    · exact .inr event_pending
  · exact .inr (.inr settled)

/-- Only the slot of the closed file can lose a writer, and a record of it is pending then. -/
theorem Invariant.close (holds : Invariant monpath c) (i : Nat) (merged : Bool) (last : Channel)
    (step : Step monpath c (.close i merged) last) : Invariant monpath last := by
  cases step with
  | close _ _ writer is_open =>
    have opened : writer ∈ c.writers := List.mem_of_getElem? is_open
    have within := holds.writers writer opened
    refine ⟨?_,?_,holds.plain,holds.queue,holds.clock,holds.idle,holds.reading,holds.passing,?_⟩
    · intro other member
      exact holds.writers other (List.mem_of_mem_eraseIdx member)
    · intro record member
      rcases (mem_closedQueue ..).mp member with old | rfl
      · exact holds.records record old
      · exact within
    · intro slot member written
      by_cases same : slot = writer.slot
      · subst same
        exact .inr (.inl (.inl (List.mem_map_of_mem (closedQueue_record c.kernel (closeRecord writer.slot) merged))))
      · have before : c.written slot = true := by
          rw [← written]
          exact (Function.update_of_ne same ..).symm
        exact (holds.settles slot member before).closed i merged writer is_open _ slot same

private theorem watchedOf_slots (read : Read) (records : ∀ record ∈ read.records, record.wd ∈ slots 6) :
    (watchedOf (slotPaths monpath) read).map FileSystemEvent.wd =
      read.records.map Record.wd := by
  unfold watchedOf
  have all : (read.records.filter fun record => !(slotPaths monpath record.wd).isEmpty) = read.records := by
    apply List.filter_eq_self.mpr
    intro record member
    rw [slotPaths,if_pos (records record member)]
    simp [messageFile_ne_nil]
  rw [all,List.map_map]
  rfl

private theorem watchedOf_slotEvent (read : Read) (records : ∀ record ∈ read.records, record.wd ∈ slots 6) :
    ∀ event ∈ watchedOf (slotPaths monpath) read, SlotEvent monpath event := by
  intro event member
  have within : event.wd ∈ slots 6 := by
    have named : event.wd ∈ read.records.map Record.wd := by
      rw [← watchedOf_slots read records]
      exact List.mem_map_of_mem member
    obtain ⟨record,found,same⟩ := List.mem_map.mp named
    rw [← same]
    exact records record found
  refine ⟨within,?_⟩
  rw [watchedOf_named read event member,slotPaths,if_pos within]

/-- While the clock does not go back, the filter lets every event of a batch through. -/
theorem Invariant.absorbed (holds : Invariant monpath c) (events : List FileSystemEvent) (read : Read)
    (waits : c.monitor = .waiting events) (drained : c.inotify.mEventQueue = []) (some_record : read.records ≠ [])
    (records : ∀ record ∈ read.records, record.wd ∈ slots 6) (onward : c.clock ≤ read.clock) :
    Plain (slotPaths monpath) (absorb c.inotify events read).1 ∧
      (absorb c.inotify events read).1.mEventQueue = watchedOf (slotPaths monpath) read ∧
      (absorb c.inotify events read).1.mLastEventTime = read.clock := by
  have none_left := holds.idle events waits drained
  subst none_left
  have absorbed := absorb_cases c.inotify holds.plain [] read
  generalize absorb c.inotify [] read = result at absorbed ⊢
  obtain ⟨inotify,left⟩ := result
  dsimp only at absorbed ⊢
  cases absorbed with
  | nothing plain queue time empty =>
    -- every record of the batch is for a slot, so it brings an event
    have wds : (watchedOf (slotPaths monpath) read).map FileSystemEvent.wd = read.records.map Record.wd :=
      watchedOf_slots read records
    rw [List.nil_append] at empty
    rw [empty] at wds
    exact absurd (List.map_eq_nil_iff.mp wds.symm) some_record
  | erased plain queue time present behind =>
    -- only a clock that went back makes the filter erase
    have current := Int.le_trans holds.clock onward
    omega
  | pushed plain queue time present current =>
    rw [drained,List.nil_append,List.nil_append] at queue
    exact ⟨plain,queue,time⟩

/-- A read moves its records from the kernel's queue to `mEventQueue`. -/
theorem Invariant.kernelRead (holds : Invariant monpath c) (read : Read) (last : Channel)
    (step : Step monpath c (.kernelRead read) last) : Invariant monpath last := by
  cases step with
  | kernelRead events _ rest waits drained some_record batch onward =>
    have read_records (record : Record) (member : record ∈ read.records) : record.wd ∈ slots 6 := by
      apply holds.records
      rw [batch]
      exact List.mem_append_left _ member
    have rest_records (record : Record) (member : record ∈ rest) : record.wd ∈ slots 6 := by
      apply holds.records
      rw [batch]
      exact List.mem_append_right _ member
    have wds : (watchedOf (slotPaths monpath) read).map FileSystemEvent.wd = read.records.map Record.wd :=
      watchedOf_slots read read_records
    obtain ⟨plain,queue,time⟩ := holds.absorbed events read waits drained some_record read_records onward
    refine ⟨holds.writers,rest_records,plain,?_,?_,?_,?_,?_,?_⟩
    · rw [queue]
      exact watchedOf_slotEvent read read_records
    · exact Int.le_of_eq time
    · intro _ _ queue_empty
      rw [queue_empty] at queue
      rw [← queue] at wds
      exact absurd (List.map_eq_nil_iff.mp wds.symm) some_record
    · intro event sofar reads
      cases reads
    · intro event message has
      cases has
    · intro slot member written
      rcases holds.settles slot member written with open_still | pending | handled | arrived
      · exact .inl open_still
      · refine .inr (.inl ?_)
        rcases pending with record_pending | event_pending
        · rw [batch,List.map_append] at record_pending
          rcases List.mem_append.mp record_pending with in_batch | later
          · right
            dsimp only
            rw [queue,wds]
            exact in_batch
          · exact .inl later
        · rw [drained] at event_pending
          cases event_pending
      · rw [waits] at handled
        cases handled.1
      · exact .inr (.inr (.inr ⟨fun handles => handles,arrived.2⟩))

private theorem pop_success (inotify last : Inotify) (event : FileSystemEvent)
    (popped : InotifyEngine.pop inotify = some (event,last)) :
    ∃ rest, inotify.mEventQueue = event :: rest ∧ last = {inotify with mEventQueue := rest} := by
  unfold InotifyEngine.pop at popped
  split at popped
  next => cases popped
  next head rest queue =>
    cases popped
    exact ⟨rest,queue,rfl⟩

theorem Invariant.pop (holds : Invariant monpath c) (last : Channel)
    (step : Step monpath c .pop last) : Invariant monpath last := by
  cases step with
  | pop events event _ waits popped =>
    obtain ⟨rest,queue,rfl⟩ := pop_success _ _ _ popped
    have slot_event : SlotEvent monpath event := holds.queue event (by rw [queue]; exact List.mem_cons_self)
    refine ⟨holds.writers,holds.records,?_,?_,holds.clock,?_,?_,?_,?_⟩
    · exact popped_plain c.inotify holds.plain rest
    · intro other member
      exact holds.queue other (by rw [queue]; exact List.mem_cons_of_mem _ member)
    · intro _ waiting
      cases waiting
    · intro other sofar reads
      cases reads
      exact slot_event
    · intro other message has
      cases has
    · intro slot member written
      by_cases same : event.wd = slot
      · exact .inr (.inr (.inl ⟨same,List.nil_prefix⟩))
      · rcases holds.settles slot member written with open_still | pending | handled | arrived
        · exact .inl open_still
        · refine .inr (.inl ?_)
          rcases pending with record_pending | event_pending
          · exact .inl record_pending
          · rw [queue,List.map_cons] at event_pending
            rcases List.mem_cons.mp event_pending with first | later
            · exact absurd first.symm same
            · exact .inr later
        · rw [waits] at handled
          cases handled.1
        · exact .inr (.inr (.inr ⟨same,arrived.2⟩))

private theorem piece_prefix (sofar content : Bytes) (count : Nat) (reading : sofar <+: content) :
    sofar ++ (content.drop sofar.length).take count <+: content := by
  obtain ⟨rest,rfl⟩ := reading
  rw [List.drop_left]
  apply (List.prefix_append_right_inj sofar).mpr
  exact List.take_prefix ..

/-- Going on with the event that is read leaves every slot settled, if what has been read
stays up to date. -/
theorem Channel.Settles.advanced (event : FileSystemEvent) (sofar : Bytes) (monitor : Monitor)
    (reads : c.monitor = .reading event sofar) (slot_event : SlotEvent monpath event)
    (handles : ∀ slot, monitor.Handles slot ↔ event.wd = slot)
    (further : sofar <+: c.contents event.path → monitor.UpToDate (c.contents event.path)) (slot : Int32)
    (settles : c.Settles monpath slot) : Channel.Settles monpath {c with monitor := monitor} slot := by
  unfold Channel.Settles at settles
  rw [reads] at settles
  rcases settles with open_still | pending | ⟨same,upToDate⟩ | ⟨other,arrived⟩
  · exact .inl open_still
  · exact .inr (.inl pending)
  · change event.wd = slot at same
    subst same
    have read_so_far : sofar <+: c.contents event.path := by
      rw [slot_event.2]
      exact upToDate
    refine .inr (.inr (.inl ⟨(handles _).mpr rfl,?_⟩))
    change monitor.UpToDate (c.contents (messageFile monpath event.wd))
    rw [← slot_event.2]
    exact further read_so_far
  · exact .inr (.inr (.inr ⟨fun now => other ((handles slot).mp now),arrived⟩))

theorem Invariant.readPiece (holds : Invariant monpath c) (count : Nat) (last : Channel)
    (step : Step monpath c (.readPiece count) last) : Invariant monpath last := by
  cases step with
  | readPiece event sofar _ reads more =>
    have slot_event := holds.reading event sofar reads
    refine ⟨holds.writers,holds.records,holds.plain,holds.queue,holds.clock,?_,?_,?_,?_⟩
    · intro _ waiting
      cases waiting
    · intro other _ reading
      cases reading
      exact slot_event
    · intro other message has
      cases has
    · intro slot member written
      apply (holds.settles slot member written).advanced event sofar _ reads slot_event (fun _ => Iff.rfl)
      intro read_so_far
      exact piece_prefix sofar _ (count + 1) read_so_far

theorem Invariant.endOfFile (holds : Invariant monpath c) (last : Channel)
    (step : Step monpath c .endOfFile last) : Invariant monpath last := by
  cases step with
  | endOfFile event sofar reads done =>
    have slot_event := holds.reading event sofar reads
    refine ⟨holds.writers,holds.records,holds.plain,holds.queue,holds.clock,?_,?_,?_,?_⟩
    · intro _ waiting
      cases waiting
    · intro other _ reading
      cases reading
    · intro other message has
      cases has
      exact slot_event
    · intro slot member written
      apply (holds.settles slot member written).advanced event sofar _ reads slot_event (fun _ => Iff.rfl)
      intro read_so_far
      have whole : sofar = c.contents event.path := read_so_far.eq_of_length_le done
      change withoutNewlines sofar = withoutNewlines (c.contents event.path)
      rw [← whole]

theorem Invariant.pass (holds : Invariant monpath c) (line : Line) (last : Channel)
    (step : Step monpath c (.pass line) last) : Invariant monpath last := by
  cases step with
  | pass event message _ world has ran =>
    refine ⟨holds.writers,holds.records,holds.plain,holds.queue,holds.clock,?_,?_,?_,?_⟩
    · intro events waiting _
      cases waiting
      rfl
    · intro other _ reading
      cases reading
    · intro other _ passing
      cases passing
    · intro slot member written
      have settles := holds.settles slot member written
      unfold Channel.Settles at settles
      rw [has] at settles
      rcases settles with open_still | pending | ⟨same,upToDate⟩ | ⟨other,arrived⟩
      · exact .inl open_still
      · exact .inr (.inl pending)
      · refine .inr (.inr (.inr ⟨fun handles => handles,?_⟩))
        change event.wd = slot at same
        subst same
        have message_is : message = withoutNewlines (c.contents (messageFile monpath event.wd)) := upToDate
        rw [← message_is]
        exact Function.update_self ..
      · refine .inr (.inr (.inr ⟨fun handles => handles,?_⟩))
        have apart : slot ≠ event.wd := fun same => other same.symm
        rw [← arrived]
        exact Function.update_of_ne apart ..

private theorem step_invariant (action : Action) (last : Channel) (holds : Invariant monpath c)
    (step : Step monpath c action last) : Invariant monpath last := by
  cases action with
  | openTruncate slot => exact holds.openTruncate slot last step
  | write i chunk => exact holds.write i chunk last step
  | close i merged => exact holds.close i merged last step
  | kernelRead read => exact holds.kernelRead read last step
  | pop => exact holds.pop last step
  | readPiece count => exact holds.readPiece count last step
  | endOfFile => exact holds.endOfFile last step
  | pass line => exact holds.pass line last step
  | cli command host args =>
    -- A client changes what the board shows, and nothing of the channel.
    cases step with
    | cli _ _ _ world ran =>
      exact ⟨holds.writers,holds.records,holds.plain,holds.queue,holds.clock,holds.idle,holds.reading,holds.passing,
        holds.settles⟩

theorem run_invariant (monpath : Bytes) (initial : Channel) (watching : Watching monpath initial) (actions : List Action)
    (run : System.Run (Step monpath) initial actions c) : Invariant monpath c := by
  apply run.invariant (Invariant monpath)
  · intro middle action last holds step
    exact step_invariant action last holds step
  · exact watching_invariant monpath initial watching

/-- Once a slot is at rest, what the monitor passed last is what its file holds. -/
theorem channel_converges (monpath : Bytes) (initial : Channel) (watching : Watching monpath initial) (actions : List Action)
    (c : Channel) (run : System.Run (Step monpath) initial actions c) (slot : Int32) (within : slot ∈ slots 6)
    (written : c.written slot = true) (closed : ¬c.Open slot) (settled : ¬c.Pending slot) (idle : ¬c.monitor.Handles slot) :
    c.passed slot = some (withoutNewlines (c.contents (messageFile monpath slot))) := by
  have holds := run_invariant monpath initial watching actions run
  rcases holds.settles slot within written with open_still | pending | handled | arrived
  · exact absurd open_still closed
  · exact absurd pending settled
  · exact absurd handled.1 idle
  · exact arrived.2

def spool : Bytes := text "/var/spool/LMBd"

def usualChannel : Channel :=
  .idle {closeWrite with mDirectorieMap := fun wd => if wd ∈ slots 6 then some (messageFile spool wd) else none} 5
    usualReached.world

theorem usualChannel_watching : Watching spool usualChannel := by
  refine ⟨nofun,nofun,⟨rfl,rfl,rfl,?_⟩,rfl,rfl,by decide,rfl,nofun⟩
  intro wd
  change (if wd ∈ slots 6 then some (messageFile spool wd) else none).getD [] = slotPaths spool wd
  unfold slotPaths
  split <;> rfl

/-- `echo A > message-1` gives the board an "A". -/
theorem channel_converges_once : ∃ c,
    System.Run (Step spool) usualChannel [.openTruncate 1,.write 0 [0x41,0x0A],.close 0 false,
      .kernelRead ⟨[],[closeRecord 1],fun _ => false,6⟩,.pop,.readPiece 7,.endOfFile,.pass .answering] c ∧
    c.passed 1 = some [0x41] := by
  have opened := (.start : System.Run (Step spool) usualChannel [] _).next (.openTruncate 1 (by decide))
  dsimp only [usualChannel,Channel.idle] at opened
  have written := opened.next (.write 0 [0x41,0x0A] ⟨1,0⟩ rfl)
  dsimp only at written
  have closed := written.next (.close 0 false ⟨1,2⟩ rfl)
  dsimp only at closed
  have onward : (5 : Int) ≤ 6 := by decide
  have read := closed.next (.kernelRead [] ⟨[],[closeRecord 1],fun _ => false,6⟩ [] rfl rfl (by simp) rfl onward)
  dsimp only at read
  have popped := read.next (.pop _ ⟨1,8,messageFile spool 1⟩ _ rfl rfl)
  dsimp only at popped
  have pieced := popped.next (.readPiece _ [] 7 rfl (by rw [Function.update_self]; decide))
  dsimp only at pieced
  have ended := pieced.next (.endOfFile _ _ rfl (by rw [Function.update_self]; decide))
  dsimp only at ended
  have passed := ended.next (.pass _ _ .answering _ rfl (ran_of_isOk _ _ (by decide +kernel)))
  refine ⟨_,passed,?_⟩
  have converged := channel_converges spool usualChannel usualChannel_watching _ _ passed 1 (by decide) rfl (by decide)
    (by decide) (fun handles => handles)
  rw [converged]
  dsimp only
  rw [Function.update_self]
  decide

end LEDMessageBoard.FileChannel
