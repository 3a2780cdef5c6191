import LEDMessageBoard.Daemon
import LEDMessageBoard.Delivery

/-! `FileMonitor::init` and what `MonitorFiles` makes of the events it set up. The slot of
an event is its watch descriptor. -/
namespace LEDMessageBoard.FileMonitor
open General Config InotifyEngine Delivery Daemon

structure Kernel where
  watches : List Bytes

/-- `inotify_add_watch` on a file that has no watch yet. -/
def Kernel.addWatch (kernel : Kernel) (path : Bytes) : Int32 × Kernel :=
  (Int32.ofNat (kernel.watches.length + 1),⟨kernel.watches ++ [path]⟩)

def Kernel.fileOf (kernel : Kernel) (wd : Int32) : Option Bytes :=
  if 1 ≤ wd.toInt then kernel.watches[wd.toInt.toNat - 1]? else none

/-- What one message file meets in `init`: what is there once the `std::ofstream` is
closed, and the `errno` of a failing `inotify_add_watch`. -/
structure Attempt where
  file : FileKind
  refusal : Option Int32

inductive WatchError where
  | filesystem
  | addWatch (errno : Int32)
deriving DecidableEq, Repr

def assignPath (inotify : Inotify) (wd : Int32) (path : Bytes) : Inotify :=
  {inotify with mDirectorieMap := Function.update inotify.mDirectorieMap wd (some path)}

/-- `watchFile` does nothing for a file that is not there. -/
def watchFile (inotify : Inotify) (kernel : Kernel) (filePath : Bytes) (attempt : Attempt) :
    Except WatchError (Inotify × Kernel) :=
  match attempt.file with
  | .missing => return (inotify,kernel)
  | .unreadable => throw .filesystem
  | _ =>
    let (ignored,inotify) := isIgnored {inotify with mError := 0} filePath
    if ignored then return (assignPath inotify 0 filePath,kernel)
    else
      match attempt.refusal with
      | some errno => throw (.addWatch errno)
      | none =>
        let (wd,kernel) := kernel.addWatch filePath
        return (assignPath inotify wd filePath,kernel)

/-- `boost::filesystem::path::operator/=` with a file name. -/
def joinPath (directory name : Bytes) : Bytes :=
  if directory = [] ∨ directory.getLast? = some 0x2F then directory ++ name else directory ++ [0x2F] ++ name

def messageFile (monpath : Bytes) (slot : Int32) : Bytes := joinPath monpath (text "message-" ++ Cli.shownInt slot.toInt)

def watchSlots (monpath : Bytes) (attempts : Int32 → Attempt) :
    List Int32 → Inotify → Kernel → Except WatchError (Inotify × Kernel)
  | [],inotify,kernel => return (inotify,kernel)
  | slot :: rest,inotify,kernel => do
    let (inotify,kernel) ← watchFile inotify kernel (messageFile monpath slot) (attempts slot)
    watchSlots monpath attempts rest inotify kernel

/-- `FileMonitor::init` without the thread it starts. The thread is handed a reference to the
parameter `lmbctx`, which ends with the call; that it reads the pointer before then is assumed of
the monitor of a channel. `removable` says whether `remove_all` empties the directory. -/
def init (files : FileSystem) (removable : Bool) (attempts : Int32 → Attempt) (ctx : LMBCTX) (inotify : Inotify)
    (kernel : Kernel) : Except WatchError (Bool × Inotify × Kernel) :=
  match files.kind ctx.monitorpath with
  | .unreadable => throw .filesystem
  | .directory => do
    if removable then
      let (inotify,kernel) ← watchSlots ctx.monitorpath attempts (slots ctx.messages) inotify kernel
      return (true,inotify,kernel)
    else throw .filesystem
  | _ => return (false,inotify,kernel)

def monitored (line : Line) (contents : Bytes → Bytes) (event : FileSystemEvent) : Event :=
  .file line event.wd (contents event.path)

def SlotsNamed (monpath : Bytes) (inotify : Inotify) (kernel : Kernel) : Prop :=
  ∀ reads calls, ∀ event ∈ returned inotify reads calls, ∀ slot ∈ slots 6,
    kernel.fileOf event.wd = some (messageFile monpath slot) → ∀ line contents ctx,
      (monitored line contents event).delivery ctx =
        some (line,slot,withoutNewlines (contents (messageFile monpath slot)))

def present (attempts : Int32 → Attempt) (slot : Int32) : Bool := (attempts slot).file ≠ .missing

private theorem fileOf_addWatch (kernel : Kernel) (path : Bytes) (small : kernel.watches.length < 2^31 - 1) (wd : Int32) :
    (kernel.addWatch path).2.fileOf wd = if wd = (kernel.addWatch path).1 then some path else kernel.fileOf wd := by
  have number : (Int32.ofNat (kernel.watches.length + 1)).toInt = kernel.watches.length + 1 :=
    Int32.toInt_ofNat_of_lt (by omega)
  have same : wd = Int32.ofNat (kernel.watches.length + 1) ↔ wd.toInt = kernel.watches.length + 1 := by
    rw [← Int32.toInt_inj,number]
  unfold Kernel.fileOf Kernel.addWatch
  dsimp only
  by_cases fresh : wd = Int32.ofNat (kernel.watches.length + 1)
  · have value := same.mp fresh
    rw [if_pos fresh,if_pos (by omega),List.getElem?_append_right (by omega)]
    have index : wd.toInt.toNat - 1 - kernel.watches.length = 0 := by omega
    rw [index]
    rfl
  · have other : wd.toInt ≠ kernel.watches.length + 1 := fun value => fresh (same.mpr value)
    rw [if_neg fresh]
    split
    next positive =>
      by_cases below : wd.toInt.toNat - 1 < kernel.watches.length
      · rw [List.getElem?_append_left below]
      · rw [List.getElem?_eq_none (by rw [List.length_append,List.length_singleton]; omega),List.getElem?_eq_none (by omega)]
    next => rfl

/-- The object and the kernel agree on what is watched. -/
structure InStep (inotify : Inotify) (kernel : Kernel) : Prop where
  timeout : inotify.mEventTimeout = 0
  ignored : inotify.mIgnoredDirectories = []
  onceIgnored : inotify.mOnceIgnoredDirectories = []
  queue : inotify.mEventQueue = []
  time : inotify.mLastEventTime = 0
  paths : ∀ wd, inotify.mDirectorieMap wd = kernel.fileOf wd

private theorem watchFile_success (inotify last : Inotify) (kernel final : Kernel) (path : Bytes) (attempt : Attempt)
    (inStep : InStep inotify kernel) (small : kernel.watches.length < 2^31 - 1)
    (ran : watchFile inotify kernel path attempt = .ok (last,final)) :
    InStep last final ∧ final.watches = kernel.watches ++ if attempt.file = .missing then [] else [path] := by
  obtain ⟨file,refusal⟩ := attempt
  have watched : watchFile inotify kernel path ⟨.other,refusal⟩ = .ok (last,final) →
      InStep last final ∧ final.watches = kernel.watches ++ [path] := by
    intro ran
    simp only [watchFile,isIgnored,inStep.ignored,inStep.onceIgnored,List.findIdx?_nil,List.any_nil] at ran
    cases refusal with
    | some errno => cases ran
    | none =>
      cases ran
      refine ⟨⟨inStep.timeout,rfl,rfl,inStep.queue,inStep.time,?_⟩,rfl⟩
      intro wd
      rw [fileOf_addWatch kernel path small wd]
      by_cases fresh : wd = (kernel.addWatch path).1
      · subst fresh
        rw [if_pos rfl]
        exact Function.update_self ..
      · rw [if_neg fresh,← inStep.paths wd]
        exact Function.update_of_ne fresh ..
  cases file with
  | missing =>
    cases ran
    exact ⟨inStep,by simp⟩
  | unreadable => cases ran
  | directory => exact watched ran
  | other => exact watched ran

private theorem watchSlots_success (monpath : Bytes) (attempts : Int32 → Attempt) (remaining : List Int32)
    (inotify last : Inotify)
    (kernel final : Kernel) (inStep : InStep inotify kernel)
    (small : kernel.watches.length + remaining.length < 2^31)
    (ran : watchSlots monpath attempts remaining inotify kernel = .ok (last,final)) :
    InStep last final ∧ final.watches = kernel.watches ++ (remaining.filter (present attempts)).map (messageFile monpath) := by
  induction remaining generalizing inotify kernel with
  | nil =>
    cases ran
    exact ⟨inStep,by simp⟩
  | cons slot rest ih =>
    rw [List.length_cons] at small
    obtain ⟨⟨middle,between⟩,one,more⟩ := except_bind_success _ _ _ ran
    obtain ⟨stepped,grown⟩ := watchFile_success inotify middle kernel between _ _ inStep (by omega) one
    have shorter : between.watches.length ≤ kernel.watches.length + 1 := by
      rw [grown,List.length_append]
      split <;> simp
    obtain ⟨settled,all⟩ := ih middle between stepped (by omega) more
    refine ⟨settled,?_⟩
    rw [all,grown,List.append_assoc]
    congr 1
    by_cases missing : (attempts slot).file = .missing
    · rw [if_pos missing,List.filter_cons_of_neg (by simp [present,missing])]
      rfl
    · rw [if_neg missing,List.filter_cons_of_pos (by simp [present,missing])]
      rfl

/-- Where an element of a filtered range stands: at its own place exactly if nothing
before it is left out. -/
theorem filter_range_index (keeps : Nat → Bool) (n i k : Nat) (found : ((List.range n).filter keeps)[i]? = some k) :
    k < n ∧ keeps k = true ∧ (i = k ↔ ∀ j < k, keeps j = true) := by
  induction n with
  | zero => simp at found
  | succ n ih =>
    rw [List.range_succ,List.filter_append] at found
    by_cases inside : i < ((List.range n).filter keeps).length
    · rw [List.getElem?_append_left inside] at found
      obtain ⟨below,kept,place⟩ := ih found
      exact ⟨by omega,kept,place⟩
    · rw [List.getElem?_append_right (by omega)] at found
      by_cases kept : keeps n = true
      · rw [List.filter_cons_of_pos kept,List.filter_nil,List.getElem?_singleton] at found
        split at found
        next last =>
          cases found
          refine ⟨by omega,kept,?_⟩
          have whole : ((List.range k).filter keeps).length = (List.range k).length ↔ ∀ j ∈ List.range k, keeps j = true :=
            List.length_filter_eq_length_iff
          simp only [List.length_range,List.mem_range] at whole
          rw [← whole]
          have shorter := List.length_filter_le keeps (List.range k)
          rw [List.length_range] at shorter
          omega
        next => cases found
      · rw [List.filter_cons_of_neg kept] at found
        simp at found

def numbered (i : Nat) : Int32 := Int32.ofNat (i + 1)

private theorem numbered_toInt (i : Nat) (small : i < 6) : (numbered i).toInt = i + 1 := Int32.toInt_ofNat_of_lt (by omega)

private theorem mem_numbered (slot : Int32) (within : slot ∈ slots 6) : ∃ i < 6, numbered i = slot := by
  obtain ⟨i,member,same⟩ := List.mem_map.mp within
  exact ⟨i,List.mem_range.mp member,same⟩

private theorem numbered_mem (i : Nat) (small : i < 6) : numbered i ∈ slots 6 := by
  apply List.mem_map.mpr
  exact ⟨i,List.mem_range.mpr small,rfl⟩

theorem messageFile_inj (monpath : Bytes) (first second : Int32) (one : first ∈ slots 6) (two : second ∈ slots 6)
    (same : messageFile monpath first = messageFile monpath second) : first = second := by
  have names : ∀ i < 6, ∀ j < 6, text "message-" ++ Cli.shownInt (numbered i).toInt =
      text "message-" ++ Cli.shownInt (numbered j).toInt → numbered i = numbered j := by
    decide
  obtain ⟨i,small,rfl⟩ := mem_numbered first one
  obtain ⟨j,below,rfl⟩ := mem_numbered second two
  apply names i small j below
  unfold messageFile joinPath at same
  split at same
  next => exact List.append_cancel_left same
  next => exact List.append_cancel_left same

theorem messageFile_ne_nil (monpath : Bytes) (slot : Int32) : messageFile monpath slot ≠ [] := by
  unfold messageFile joinPath
  split <;> simp [text]

/-- After `init` the descriptor of `message-k` is `k` exactly if no file before it is missing. -/
theorem watched_place (monpath : Bytes) (attempts : Int32 → Attempt) (kernel : Kernel)
    (watches : kernel.watches = ((slots 6).filter (present attempts)).map (messageFile monpath)) (wd slot : Int32)
    (within : slot ∈ slots 6) (file : kernel.fileOf wd = some (messageFile monpath slot)) :
    present attempts slot = true ∧
      (wd = slot ↔ ∀ other ∈ slots 6, other.toInt < slot.toInt → present attempts other = true) := by
  unfold Kernel.fileOf at file
  split at file
  next positive =>
    have numbers : slots 6 = (List.range 6).map numbered := rfl
    rw [watches,numbers,List.filter_map,List.map_map,List.getElem?_map] at file
    obtain ⟨k,found,same⟩ := Option.map_eq_some_iff.mp file
    obtain ⟨below,kept,place⟩ := filter_range_index _ 6 _ k found
    have slot_is : numbered k = slot := messageFile_inj monpath _ _ (numbered_mem k below) within same
    subst slot_is
    refine ⟨kept,?_⟩
    have value := numbered_toInt k below
    have here : wd = numbered k ↔ wd.toInt.toNat - 1 = k := by
      rw [← Int32.toInt_inj,value]
      omega
    rw [here,place]
    constructor
    · intro all other member before
      obtain ⟨j,small,rfl⟩ := mem_numbered other member
      rw [numbered_toInt j small] at before
      exact all j (by omega)
    · intro all j before
      apply all (numbered j) (numbered_mem j (by omega))
      rw [numbered_toInt j (by omega),value]
      omega
  next => cases file

theorem present_watched (monpath : Bytes) (attempts : Int32 → Attempt) (kernel : Kernel)
    (watches : kernel.watches = ((slots 6).filter (present attempts)).map (messageFile monpath)) (slot : Int32)
    (within : slot ∈ slots 6) (there : present attempts slot = true) :
    ∃ wd, kernel.fileOf wd = some (messageFile monpath slot) := by
  have member : messageFile monpath slot ∈ kernel.watches := by
    rw [watches]
    exact List.mem_map_of_mem (List.mem_filter.mpr ⟨within,there⟩)
  obtain ⟨i,bound,found⟩ := List.mem_iff_getElem.mp member
  have few : kernel.watches.length ≤ 6 := by
    rw [watches,List.length_map]
    exact List.length_filter_le ..
  refine ⟨numbered i,?_⟩
  have value := numbered_toInt i (by omega)
  have index : (numbered i).toInt.toNat - 1 = i := by rw [value]; omega
  rw [Kernel.fileOf,if_pos (by omega),index,List.getElem?_eq_getElem bound,found]

theorem init_success (files : FileSystem) (removable : Bool) (attempts : Int32 → Attempt) (ctx : LMBCTX) (six : ctx.SixSlots)
    (inotify : Inotify) (kernel : Kernel)
    (ran : init files removable attempts ctx closeWrite ⟨[]⟩ = .ok (true,inotify,kernel)) :
    InStep inotify kernel ∧ kernel.watches = ((slots 6).filter (present attempts)).map (messageFile ctx.monitorpath) := by
  have begun : InStep closeWrite ⟨[]⟩ := by
    refine ⟨rfl,rfl,rfl,rfl,rfl,?_⟩
    intro wd
    unfold Kernel.fileOf
    split <;> rfl
  unfold init at ran
  split at ran
  next => cases ran
  next =>
    split at ran
    next =>
      obtain ⟨⟨last,final⟩,watched,done⟩ := except_bind_success _ _ _ ran
      cases done
      rw [six.messages] at watched
      have steps := watchSlots_success ctx.monitorpath attempts (slots 6) closeWrite inotify ⟨[]⟩ kernel begun (by decide)
        watched
      rw [List.nil_append] at steps
      exact steps
    next => cases ran
  next => cases ran

/-- After every successful `init` the events reach the slots of their files exactly if
no missing message file comes before one that is there. -/
theorem slots_named_iff (reached : Reached) (files : FileSystem) (removable : Bool) (attempts : Int32 → Attempt)
    (inotify : Inotify) (kernel : Kernel)
    (ran : init files removable attempts reached.world.ctx closeWrite ⟨[]⟩ = .ok (true,inotify,kernel)) :
    SlotsNamed reached.world.ctx.monitorpath inotify kernel ↔
      ∀ slot ∈ slots 6, present attempts slot = true →
        ∀ other ∈ slots 6, other.toInt < slot.toInt → present attempts other = true := by
  obtain ⟨inStep,watches⟩ := init_success files removable attempts _ reached.six inotify kernel ran
  let monpath := reached.world.ctx.monitorpath
  let paths : Int32 → Bytes := fun wd => valueAt inotify.mDirectorieMap wd
  have plain : Plain paths inotify := ⟨inStep.timeout,inStep.ignored,inStep.onceIgnored,fun _ => rfl⟩
  have path_of (wd slot : Int32) (file : kernel.fileOf wd = some (messageFile monpath slot)) :
      paths wd = messageFile monpath slot := by
    change valueAt inotify.mDirectorieMap wd = _
    rw [valueAt,inStep.paths wd,file]
    rfl
  constructor
  · intro named slot within there
    obtain ⟨wd,file⟩ := present_watched monpath attempts kernel watches slot within there
    have present_path : paths wd ≠ [] := by
      rw [path_of wd slot file]
      exact messageFile_ne_nil monpath slot
    let read : Read := ⟨[],[⟨wd,8⟩],fun _ => false,0⟩
    have event : watched paths [read] = [⟨wd,8,paths wd⟩] := by simp [watched,watchedOf,read,present_path]
    have forward : Forward paths inotify [read] := by
      have relevant : watchedOf paths read ≠ [] := by simp [watchedOf,read,present_path]
      simp [Forward,clocks,relevant,inStep.time,read]
    have returns : returned inotify [read] 1 = [⟨wd,8,paths wd⟩] := by
      rw [returned_forward 1 [read] inotify plain forward,inStep.queue,event]
      rfl
    have delivered := named [read] 1 ⟨wd,8,paths wd⟩ (by rw [returns]; simp) slot within file .answering (fun _ => [])
      reached.world.ctx
    have place : wd = slot := congrArg (fun request => request.2.1) (Option.some.inj delivered)
    exact (watched_place monpath attempts kernel watches wd slot within file).2.mp place
  · intro ordered reads calls event member slot within file line contents ctx'
    have queued : Named paths inotify.mEventQueue := by
      rw [inStep.queue]
      intro _ none
      cases none
    have path := returned_named calls reads inotify plain queued event member
    rw [path_of event.wd slot file] at path
    obtain ⟨there,place⟩ := watched_place monpath attempts kernel watches event.wd slot within file
    have wd_is : event.wd = slot := place.mpr (ordered slot within there)
    unfold monitored
    rw [path,wd_is]
    rfl

def watchable : Attempt := ⟨.other,none⟩

theorem slots_named_all : ∃ inotify kernel,
    init usualFiles true (fun _ => watchable) usualReached.world.ctx closeWrite ⟨[]⟩ = .ok (true,inotify,kernel) ∧
      SlotsNamed usualReached.world.ctx.monitorpath inotify kernel := by
  refine ⟨_,_,rfl,?_⟩
  apply (slots_named_iff usualReached usualFiles true (fun _ => watchable) _ _ rfl).mpr
  intros
  rfl

/-- `message-1` cannot be created: an event for `message-2` is delivered to slot 1. -/
theorem slots_shifted : ∃ inotify kernel,
    init usualFiles true (fun slot => if slot = 1 then ⟨.missing,none⟩ else watchable) usualReached.world.ctx closeWrite ⟨[]⟩ =
        .ok (true,inotify,kernel) ∧
      kernel.fileOf 1 = some (messageFile usualReached.world.ctx.monitorpath 2) ∧
      ¬SlotsNamed usualReached.world.ctx.monitorpath inotify kernel := by
  refine ⟨_,_,rfl,by decide,?_⟩
  intro named
  have delivered := named [⟨[],[⟨1,8⟩],fun _ => false,0⟩] 1 ⟨1,8,messageFile (text "/var/spool/LMBd") 2⟩ (by decide +kernel) 2
    (by decide) (by decide) .answering (fun _ => []) (mainDefaults false)
  exact absurd (congrArg (fun request => request.2.1) (Option.some.inj delivered)) (by decide)

end LEDMessageBoard.FileMonitor
