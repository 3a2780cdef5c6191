import LEDMessageBoard.Context
import Mathlib.Data.List.Basic

/-! `Inotify::getNextEvent`: the kernel's records, the queue they go through and the
filter by the clock. -/
namespace LEDMessageBoard.InotifyEngine
open General

structure Record where
  wd : Int32
  mask : UInt32
deriving DecidableEq, Repr

structure FileSystemEvent where
  wd : Int32
  mask : UInt32
  path : Bytes
deriving DecidableEq, Repr

structure Inotify where
  mError : Int32
  mEventTimeout : Int
  mLastEventTime : Int
  mEventMask : UInt32
  mIgnoredDirectories : List Bytes
  mOnceIgnoredDirectories : List Bytes
  mEventQueue : List FileSystemEvent
  mDirectorieMap : Int32 → Option Bytes

def closeWrite : Inotify := ⟨0,0,0,0x8,[],[],[],fun _ => none⟩

/-- One successful `read`: the `errno` of the attempts before it that returned -1, the
records it returns, which paths are directories then, and the clock after it. -/
structure Read where
  failures : List Int32
  records : List Record
  directories : Bytes → Bool
  clock : Int

/-- `file.find(part) != npos` -/
def occursIn (part file : Bytes) : Bool := file.tails.any fun rest => part.isPrefixOf rest

/-- `isIgnored`, which forgets a once ignored entry that it used. -/
def isIgnored (inotify : Inotify) (file : Bytes) : Bool × Inotify :=
  match inotify.mOnceIgnoredDirectories.findIdx? (occursIn · file) with
  | some i => (true,{inotify with mOnceIgnoredDirectories := inotify.mOnceIgnoredDirectories.eraseIdx i})
  | none => (inotify.mIgnoredDirectories.any (occursIn · file),inotify)

def onTimeout (inotify : Inotify) (eventTime : Int) : Bool := inotify.mLastEventTime + inotify.mEventTimeout > eventTime

/-- `wdToPath` inserts an empty path for a descriptor that is not there. -/
def wdToPath (inotify : Inotify) (wd : Int32) : Bytes × Inotify :=
  (valueAt inotify.mDirectorieMap wd,{inotify with mDirectorieMap := subscript inotify.mDirectorieMap wd})

/-- The loop over the buffer: records whose path is not empty go to `events`. -/
def collect (directories : Bytes → Bool) (inotify : Inotify) (events : List FileSystemEvent) :
    List Record → Inotify × List FileSystemEvent
  | [] => (inotify,events)
  | record :: rest =>
    let (path,inotify) := wdToPath inotify record.wd
    let mask := if directories path then record.mask ||| 0x40000000 else record.mask
    if path.isEmpty then collect directories inotify events rest
    else collect directories inotify (events ++ [⟨record.wd,mask,path⟩]) rest

def dropped (eventTime : Int) (inotify : Inotify) (event : FileSystemEvent) : Bool × Inotify :=
  if onTimeout inotify eventTime then (true,inotify) else isIgnored inotify event.path

/-- The filter loop. `erase` moves the events behind one place forwards, so the `++` of
the loop passes over the next one. The second result is what stays in `events`. -/
def filterEvents (eventTime : Int) (inotify : Inotify) : List FileSystemEvent → Inotify × List FileSystemEvent
  | [] => (inotify,[])
  | [event] =>
    match dropped eventTime inotify event with
    | (true,inotify) => (inotify,[])
    | (false,inotify) =>
      ({inotify with mLastEventTime := eventTime,mEventQueue := inotify.mEventQueue ++ [event]},[event])
  | event :: skipped :: rest =>
    match dropped eventTime inotify event with
    | (true,inotify) =>
      let (inotify,left) := filterEvents eventTime inotify rest
      (inotify,skipped :: left)
    | (false,inotify) =>
      let pushed := {inotify with mLastEventTime := eventTime,mEventQueue := inotify.mEventQueue ++ [event]}
      let (inotify,left) := filterEvents eventTime pushed (skipped :: rest)
      (inotify,event :: left)

def absorb (inotify : Inotify) (events : List FileSystemEvent) (read : Read) : Inotify × List FileSystemEvent :=
  let inotify := {inotify with mError := read.failures.getLastD inotify.mError}
  let (inotify,events) := collect read.directories inotify events read.records
  filterEvents read.clock inotify events

def pop (inotify : Inotify) : Option (FileSystemEvent × Inotify) :=
  match inotify.mEventQueue with
  | [] => none
  | event :: rest => some (event,{inotify with mEventQueue := rest})

/-- The outer loop. `events` is not cleared between two passes. It blocks where there is
no more to read. -/
def nextEvent (inotify : Inotify) (events : List FileSystemEvent) (reads : List Read) :
    Option (FileSystemEvent × Inotify × List Read) :=
  match pop inotify with
  | some (event,inotify) => some (event,inotify,reads)
  | none =>
    match reads with
    | [] => none
    | read :: reads =>
      let (inotify,events) := absorb inotify events read
      nextEvent inotify events reads

def getNextEvent (inotify : Inotify) (reads : List Read) : Option (FileSystemEvent × Inotify × List Read) :=
  nextEvent inotify [] reads

/-- What the first calls of `getNextEvent` return, up to the one that blocks. -/
def returned (inotify : Inotify) (reads : List Read) : Nat → List FileSystemEvent
  | 0 => []
  | calls + 1 =>
    match getNextEvent inotify reads with
    | none => []
    | some (event,inotify,reads) => event :: returned inotify reads calls

def watchedOf (paths : Int32 → Bytes) (read : Read) : List FileSystemEvent :=
  (read.records.filter fun record => !(paths record.wd).isEmpty).map fun record =>
    ⟨record.wd,if read.directories (paths record.wd) then record.mask ||| 0x40000000 else record.mask,paths record.wd⟩

def watched (paths : Int32 → Bytes) (reads : List Read) : List FileSystemEvent := reads.flatMap (watchedOf paths)

/-- The clock readings at the reads that bring a watched event. -/
def clocks (paths : Int32 → Bytes) (reads : List Read) : List Int :=
  (reads.filter fun read => !(watchedOf paths read).isEmpty).map Read.clock

/-- What the daemon's object is at any time: no timeout and nothing ignored. -/
structure Plain (paths : Int32 → Bytes) (inotify : Inotify) : Prop where
  timeout : inotify.mEventTimeout = 0
  ignored : inotify.mIgnoredDirectories = []
  onceIgnored : inotify.mOnceIgnoredDirectories = []
  paths : ∀ wd, valueAt inotify.mDirectorieMap wd = paths wd

def odds : List FileSystemEvent → List FileSystemEvent
  | [] => []
  | [_] => []
  | _ :: kept :: rest => kept :: odds rest

theorem odds_length (events : List FileSystemEvent) (some_event : events ≠ []) : (odds events).length < events.length := by
  fun_induction odds events with
  | case1 => exact absurd rfl some_event
  | case2 event => simp
  | case3 event kept rest ih =>
    cases rest with
    | nil => simp [odds]
    | cons head tail =>
      have shorter := ih (by simp)
      simp only [List.length_cons] at shorter ⊢
      omega

variable {paths : Int32 → Bytes}

private theorem subscript_paths (inotify : Inotify) (plain : Plain paths inotify) (wd : Int32) :
    Plain paths {inotify with mDirectorieMap := subscript inotify.mDirectorieMap wd} := by
  refine ⟨plain.timeout,plain.ignored,plain.onceIgnored,?_⟩
  intro other
  rw [← plain.paths other]
  by_cases same : other = wd
  · subst same
    simp [valueAt,subscript]
  · simp [valueAt,subscript,same]

private theorem collect_plain (read : Read) (records : List Record) (inotify : Inotify) (events : List FileSystemEvent)
    (plain : Plain paths inotify) :
    Plain paths (collect read.directories inotify events records).1 ∧
      (collect read.directories inotify events records).1.mEventQueue = inotify.mEventQueue ∧
      (collect read.directories inotify events records).1.mLastEventTime = inotify.mLastEventTime ∧
      (collect read.directories inotify events records).2 = events ++ watchedOf paths {read with records := records} := by
  induction records generalizing inotify events with
  | nil => exact ⟨plain,rfl,rfl,by simp [collect,watchedOf]⟩
  | cons record rest ih =>
    have next := subscript_paths inotify plain record.wd
    rw [collect,wdToPath,plain.paths]
    dsimp only
    split
    next empty =>
      obtain ⟨kept,queue,time,collected⟩ := ih _ events next
      exact ⟨kept,queue,time,by rw [collected]; simp [watchedOf,empty]⟩
    next present =>
      obtain ⟨kept,queue,time,collected⟩ := ih _ _ next
      exact ⟨kept,queue,time,by rw [collected]; simp [watchedOf,present]⟩

/-- With the clock behind the last event, every other event is erased and none is pushed. -/
theorem filterEvents_behind (eventTime : Int) (inotify : Inotify) (plain : Plain paths inotify)
    (behind : eventTime < inotify.mLastEventTime) (events : List FileSystemEvent) :
    filterEvents eventTime inotify events = (inotify,odds events) := by
  have timed : onTimeout inotify eventTime = true := by
    rw [onTimeout,plain.timeout]
    simpa using behind
  fun_induction odds events with
  | case1 => rfl
  | case2 event => simp [filterEvents,dropped,timed]
  | case3 event kept rest ih => simp [filterEvents,dropped,timed,ih]

private theorem dropped_plain (eventTime : Int) (inotify : Inotify) (plain : Plain paths inotify)
    (current : inotify.mLastEventTime ≤ eventTime) (event : FileSystemEvent) :
    dropped eventTime inotify event = (false,inotify) := by
  have timed : onTimeout inotify eventTime = false := by
    rw [onTimeout,plain.timeout]
    simpa using current
  simp [dropped,timed,isIgnored,plain.ignored,plain.onceIgnored]

private theorem filterEvents_current (eventTime : Int) (events : List FileSystemEvent) (inotify : Inotify)
    (plain : Plain paths inotify) (current : inotify.mLastEventTime ≤ eventTime) (some_event : events ≠ []) :
    filterEvents eventTime inotify events =
      ({inotify with mLastEventTime := eventTime,mEventQueue := inotify.mEventQueue ++ events},events) := by
  induction events generalizing inotify with
  | nil => exact absurd rfl some_event
  | cons event rest ih =>
    cases rest with
    | nil => simp [filterEvents,dropped_plain eventTime inotify plain current]
    | cons next rest =>
      have pushed := ih {inotify with mLastEventTime := eventTime,mEventQueue := inotify.mEventQueue ++ [event]}
        ⟨plain.timeout,plain.ignored,plain.onceIgnored,plain.paths⟩ (Int.le_refl _) (by simp)
      simp [filterEvents,dropped_plain eventTime inotify plain current,pushed]

inductive Absorbed (paths : Int32 → Bytes) (inotify : Inotify) (events : List FileSystemEvent) (read : Read) :
    Inotify → List FileSystemEvent → Prop where
  | nothing (last : Inotify) (plain : Plain paths last) (queue : last.mEventQueue = inotify.mEventQueue)
    (time : last.mLastEventTime = inotify.mLastEventTime) (empty : events ++ watchedOf paths read = []) :
    Absorbed paths inotify events read last []
  | erased (last : Inotify) (plain : Plain paths last) (queue : last.mEventQueue = inotify.mEventQueue)
    (time : last.mLastEventTime = inotify.mLastEventTime) (present : events ++ watchedOf paths read ≠ [])
    (behind : read.clock < inotify.mLastEventTime) :
    Absorbed paths inotify events read last (odds (events ++ watchedOf paths read))
  | pushed (last : Inotify) (plain : Plain paths last)
    (queue : last.mEventQueue = inotify.mEventQueue ++ (events ++ watchedOf paths read))
    (time : last.mLastEventTime = read.clock) (present : events ++ watchedOf paths read ≠ [])
    (current : inotify.mLastEventTime ≤ read.clock) :
    Absorbed paths inotify events read last (events ++ watchedOf paths read)

theorem absorb_cases (inotify : Inotify) (plain : Plain paths inotify) (events : List FileSystemEvent) (read : Read) :
    Absorbed paths inotify events read (absorb inotify events read).1 (absorb inotify events read).2 := by
  have noted : Plain paths {inotify with mError := read.failures.getLastD inotify.mError} :=
    ⟨plain.timeout,plain.ignored,plain.onceIgnored,plain.paths⟩
  obtain ⟨kept,queue,time,collected⟩ := collect_plain read read.records _ events noted
  unfold absorb
  dsimp only
  generalize collect read.directories {inotify with mError := read.failures.getLastD inotify.mError} events
    read.records = result at kept queue time collected ⊢
  obtain ⟨middle,all⟩ := result
  dsimp only at kept queue time collected ⊢
  subst collected
  by_cases empty : events ++ watchedOf paths read = []
  · rw [empty]
    exact .nothing middle kept queue time empty
  · by_cases current : inotify.mLastEventTime ≤ read.clock
    · rw [filterEvents_current read.clock _ middle kept (by rw [time]; exact current) empty]
      exact .pushed _ ⟨kept.timeout,kept.ignored,kept.onceIgnored,kept.paths⟩ (by rw [queue]) rfl empty current
    · have behind : read.clock < inotify.mLastEventTime := Int.not_le.mp current
      rw [filterEvents_behind read.clock middle kept (by rw [time]; exact behind)]
      exact .erased middle kept queue time empty behind

end LEDMessageBoard.InotifyEngine
