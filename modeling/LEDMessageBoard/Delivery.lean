import LEDMessageBoard.InotifyEngine

/-! Which records reach `MonitorFiles`: all of them, in order, exactly as long as the
clock never goes back. -/
namespace LEDMessageBoard.Delivery
open InotifyEngine

variable {paths : Int32 → Bytes}

def Forward (paths : Int32 → Bytes) (inotify : Inotify) (reads : List Read) : Prop :=
  (inotify.mLastEventTime :: clocks paths reads).IsChain (· ≤ ·)

instance (inotify : Inotify) (reads : List Read) : Decidable (Forward paths inotify reads) :=
  inferInstanceAs (Decidable (List.IsChain _ _))

private theorem forward_irrelevant (inotify last : Inotify) (time : last.mLastEventTime = inotify.mLastEventTime) (read : Read)
    (reads : List Read) (irrelevant : watchedOf paths read = []) :
    Forward paths inotify (read :: reads) ↔ Forward paths last reads := by
  simp [Forward,clocks,irrelevant,time]

private theorem forward_relevant (inotify last : Inotify) (read : Read) (time : last.mLastEventTime = read.clock)
    (reads : List Read)
    (relevant : watchedOf paths read ≠ []) :
    Forward paths inotify (read :: reads) ↔ inotify.mLastEventTime ≤ read.clock ∧ Forward paths last reads := by
  simp [Forward,clocks,relevant,time]

private theorem watched_cons (read : Read) (reads : List Read) :
    watched paths (read :: reads) = watchedOf paths read ++ watched paths reads := by
  simp [watched]

def pending (inotify : Inotify) (events : List FileSystemEvent) : Nat :=
  if inotify.mEventQueue = [] then events.length else inotify.mEventQueue.length

private theorem nextEvent_queued (inotify : Inotify) (events : List FileSystemEvent) (reads : List Read)
    (event : FileSystemEvent)
    (rest : List FileSystemEvent) (queue : inotify.mEventQueue = event :: rest) :
    nextEvent inotify events reads = some (event,{inotify with mEventQueue := rest},reads) := by
  unfold nextEvent
  rw [pop,queue]

private theorem nextEvent_read (inotify : Inotify) (events : List FileSystemEvent) (read : Read) (reads : List Read)
    (queue : inotify.mEventQueue = []) :
    nextEvent inotify events (read :: reads) =
      nextEvent (absorb inotify events read).1 (absorb inotify events read).2 reads := by
  rw [nextEvent,pop,queue]

private theorem nextEvent_blocked (inotify : Inotify) (events : List FileSystemEvent) (queue : inotify.mEventQueue = []) :
    nextEvent inotify events [] = none := by
  rw [nextEvent,pop,queue]

/-- What a call of `getNextEvent` that returns does, by the passes of its loop. -/
theorem nextEvent_induct
    (holds : Inotify → List FileSystemEvent → List Read → FileSystemEvent → Inotify → List Read → Prop)
    (queued : ∀ inotify events reads event tail, inotify.mEventQueue = event :: tail →
      holds inotify events reads event {inotify with mEventQueue := tail} reads)
    (passed : ∀ inotify events read reads event last rest, inotify.mEventQueue = [] →
      holds (absorb inotify events read).1 (absorb inotify events read).2 reads event last rest →
      holds inotify events (read :: reads) event last rest)
    (reads : List Read) (inotify : Inotify) (events : List FileSystemEvent) (event : FileSystemEvent) (last : Inotify)
    (rest : List Read) (ran : nextEvent inotify events reads = some (event,last,rest)) :
    holds inotify events reads event last rest := by
  induction reads generalizing inotify events with
  | nil =>
    cases queue : inotify.mEventQueue with
    | nil =>
      rw [nextEvent_blocked inotify events queue] at ran
      cases ran
    | cons head tail =>
      rw [nextEvent_queued inotify events [] head tail queue] at ran
      cases ran
      exact queued inotify events [] _ tail queue
  | cons read reads ih =>
    cases queue : inotify.mEventQueue with
    | cons head tail =>
      rw [nextEvent_queued inotify events _ head tail queue] at ran
      cases ran
      exact queued inotify events _ _ tail queue
    | nil =>
      rw [nextEvent_read inotify events read reads queue] at ran
      exact passed inotify events read reads event last rest queue (ih _ _ ran)

theorem popped_plain (inotify : Inotify) (plain : Plain paths inotify) (tail : List FileSystemEvent) :
    Plain paths {inotify with mEventQueue := tail} :=
  ⟨plain.timeout,plain.ignored,plain.onceIgnored,plain.paths⟩

/-- No call makes an event up: what a call returns and leaves was there or is read. -/
theorem nextEvent_bound (reads : List Read) (inotify : Inotify) (plain : Plain paths inotify) (events : List FileSystemEvent)
    (event : FileSystemEvent) (last : Inotify) (rest : List Read)
    (ran : nextEvent inotify events reads = some (event,last,rest)) :
    Plain paths last ∧ last.mEventQueue.length + 1 + (watched paths rest).length ≤
      pending inotify events + (watched paths reads).length := by
  refine nextEvent_induct (fun inotify events reads _ last rest => Plain paths inotify → Plain paths last ∧
    last.mEventQueue.length + 1 + (watched paths rest).length ≤ pending inotify events + (watched paths reads).length)
    ?_ ?_ reads inotify events event last rest ran plain
  · intro inotify events reads event tail queue plain
    exact ⟨popped_plain inotify plain tail,by simp [pending,queue]⟩
  · intro inotify events read reads event last rest queue ih plain
    have absorbed := absorb_cases inotify plain events read
    generalize absorb inotify events read = result at absorbed ih
    obtain ⟨middle,left⟩ := result
    dsimp only at absorbed ih
    rw [watched_cons,List.length_append]
    cases absorbed with
    | nothing kept same time empty =>
      obtain ⟨plain_last,bound⟩ := ih kept
      refine ⟨plain_last,?_⟩
      rw [pending,if_pos (same.trans queue)] at bound
      simp only [List.length_nil] at bound
      omega
    | erased kept same time present behind =>
      obtain ⟨plain_last,bound⟩ := ih kept
      have shorter := odds_length _ present
      rw [List.length_append] at shorter
      rw [pending,if_pos (same.trans queue)] at bound
      rw [pending,if_pos queue]
      exact ⟨plain_last,by omega⟩
    | pushed kept same time present current =>
      obtain ⟨plain_last,bound⟩ := ih kept
      rw [queue,List.nil_append] at same
      rw [pending,same,if_neg present,List.length_append] at bound
      rw [pending,if_pos queue]
      exact ⟨plain_last,by omega⟩

private theorem nextEvent_forward (reads : List Read) (inotify : Inotify) (plain : Plain paths inotify)
    (forward : Forward paths inotify reads) :
    (nextEvent inotify [] reads = none ∧ inotify.mEventQueue ++ watched paths reads = []) ∨
    ∃ event last rest, nextEvent inotify [] reads = some (event,last,rest) ∧ Plain paths last ∧ Forward paths last rest ∧
      inotify.mEventQueue ++ watched paths reads = event :: (last.mEventQueue ++ watched paths rest) := by
  induction reads generalizing inotify with
  | nil =>
    cases queue : inotify.mEventQueue with
    | nil => exact .inl ⟨nextEvent_blocked inotify [] queue,rfl⟩
    | cons head tail =>
      exact .inr ⟨head,_,_,nextEvent_queued inotify [] [] head tail queue,
        popped_plain inotify plain tail,forward,rfl⟩
  | cons read reads ih =>
    cases queue : inotify.mEventQueue with
    | cons head tail =>
      exact .inr ⟨head,_,_,nextEvent_queued inotify [] _ head tail queue,
        popped_plain inotify plain tail,forward,rfl⟩
    | nil =>
      rw [nextEvent_read inotify [] read reads queue,watched_cons]
      have absorbed := absorb_cases inotify plain [] read
      generalize absorb inotify [] read = result at absorbed ⊢
      obtain ⟨middle,left⟩ := result
      cases absorbed with
      | nothing kept same time empty =>
        have irrelevant : watchedOf paths read = [] := empty
        have next := ih middle kept ((forward_irrelevant inotify middle time read reads irrelevant).mp forward)
        rw [same,queue] at next
        rw [irrelevant,List.nil_append]
        exact next
      | erased kept same time present behind =>
        have current := ((forward_relevant inotify {middle with mLastEventTime := read.clock} read rfl reads present).mp forward).1
        omega
      | pushed kept same time present current =>
        have onward := ((forward_relevant inotify middle read time reads present).mp forward).2
        rw [queue,List.nil_append,List.nil_append] at same
        obtain ⟨head,tail,events⟩ := List.exists_cons_of_ne_nil present
        rw [List.nil_append] at events
        refine .inr ⟨head,_,_,nextEvent_queued middle _ reads head tail (same.trans events),
          popped_plain middle kept tail,onward,?_⟩
        rw [events]
        rfl

theorem returned_forward (calls : Nat) (reads : List Read) (inotify : Inotify) (plain : Plain paths inotify)
    (forward : Forward paths inotify reads) :
    returned inotify reads calls = (inotify.mEventQueue ++ watched paths reads).take calls := by
  induction calls generalizing inotify reads with
  | zero => rfl
  | succ calls ih =>
    rw [returned,getNextEvent]
    rcases nextEvent_forward reads inotify plain forward with ⟨blocked,none⟩ | ⟨event,last,rest,ran,kept,onward,same⟩
    · rw [blocked,none]
      rfl
    · rw [ran,same,List.take_succ_cons]
      dsimp only
      rw [ih rest last kept onward]

/-- Once the clock has gone back at a watched event, an event is lost for good. -/
theorem nextEvent_behind (reads : List Read) (inotify : Inotify) (plain : Plain paths inotify)
    (back : ¬Forward paths inotify reads) (event : FileSystemEvent) (last : Inotify) (rest : List Read)
    (ran : nextEvent inotify [] reads = some (event,last,rest)) :
    last.mEventQueue.length + 1 + (watched paths rest).length < inotify.mEventQueue.length + (watched paths reads).length ∨
    last.mEventQueue.length + 1 + (watched paths rest).length = inotify.mEventQueue.length + (watched paths reads).length ∧
      ¬Forward paths last rest := by
  induction reads generalizing inotify with
  | nil => exact absurd (by simp [Forward,clocks]) back
  | cons read reads ih =>
    cases queue : inotify.mEventQueue with
    | cons head tail =>
      rw [nextEvent_queued inotify [] _ head tail queue] at ran
      cases ran
      exact .inr ⟨by simp,back⟩
    | nil =>
      rw [nextEvent_read inotify [] read reads queue] at ran
      have absorbed := absorb_cases inotify plain [] read
      generalize absorb inotify [] read = result at absorbed ran
      obtain ⟨middle,left⟩ := result
      rw [watched_cons,List.length_append,List.length_nil]
      cases absorbed with
      | nothing kept same time empty =>
        have irrelevant : watchedOf paths read = [] := empty
        have stays : ¬Forward paths middle reads := fun onward =>
          back ((forward_irrelevant inotify middle time read reads irrelevant).mpr onward)
        have next := ih middle kept stays ran
        rw [same,queue,List.length_nil] at next
        rw [irrelevant,List.length_nil]
        simpa using next
      | erased kept same time present behind =>
        have bound := (nextEvent_bound reads middle kept (odds ([] ++ watchedOf paths read)) event last rest ran).2
        have shorter := odds_length _ present
        rw [pending,if_pos (same.trans queue)] at bound
        rw [List.nil_append] at bound shorter
        exact .inl (by omega)
      | pushed kept same time present current =>
        have stays : ¬Forward paths middle reads := fun onward =>
          back ((forward_relevant inotify middle read time reads present).mpr ⟨current,onward⟩)
        rw [queue,List.nil_append,List.nil_append] at same
        obtain ⟨head,tail,events⟩ := List.exists_cons_of_ne_nil present
        rw [List.nil_append] at events
        rw [nextEvent_queued middle _ reads head tail (same.trans events)] at ran
        cases ran
        refine .inr ⟨?_,stays⟩
        rw [events,List.length_cons]
        change tail.length + 1 + (watched paths rest).length = 0 + (tail.length + 1 + (watched paths rest).length)
        omega

private theorem returned_bound (calls : Nat) (reads : List Read) (inotify : Inotify) (plain : Plain paths inotify) :
    (returned inotify reads calls).length ≤ inotify.mEventQueue.length + (watched paths reads).length := by
  induction calls generalizing inotify reads with
  | zero => simp [returned]
  | succ calls ih =>
    rw [returned]
    cases ran : getNextEvent inotify reads with
    | none => simp
    | some result =>
      obtain ⟨event,last,rest⟩ := result
      obtain ⟨kept,bound⟩ := nextEvent_bound reads inotify plain [] event last rest ran
      have later := ih rest last kept
      have queued : pending inotify [] = inotify.mEventQueue.length := by
        unfold pending
        split
        next empty => rw [empty]
        next => rfl
      simp only [List.length_cons]
      omega

private theorem watched_behind (reads : List Read) (inotify : Inotify) (back : ¬Forward paths inotify reads) :
    0 < (watched paths reads).length := by
  by_contra none
  apply back
  have empty : watched paths reads = [] := List.eq_nil_of_length_eq_zero (by omega)
  rw [watched,List.flatMap_eq_nil_iff] at empty
  have no_clock : clocks paths reads = [] := by
    rw [clocks,List.map_eq_nil_iff,List.filter_eq_nil_iff]
    intro read member
    simp [empty read member]
  rw [Forward,no_clock]
  exact .singleton _

private theorem returned_behind (calls : Nat) (reads : List Read) (inotify : Inotify) (plain : Plain paths inotify)
    (back : ¬Forward paths inotify reads) :
    (returned inotify reads calls).length < inotify.mEventQueue.length + (watched paths reads).length := by
  induction calls generalizing inotify reads with
  | zero =>
    have relevant := watched_behind reads inotify back
    simp only [returned,List.length_nil]
    omega
  | succ calls ih =>
    rw [returned]
    cases ran : getNextEvent inotify reads with
    | none =>
      have relevant := watched_behind reads inotify back
      simp only [List.length_nil]
      omega
    | some result =>
      obtain ⟨event,last,rest⟩ := result
      obtain ⟨kept,_⟩ := nextEvent_bound reads inotify plain [] event last rest ran
      simp only [List.length_cons]
      rcases nextEvent_behind reads inotify plain back event last rest ran with lost | ⟨same,stays⟩
      · have later := returned_bound calls rest last kept
        omega
      · have later := ih rest last kept stays
        omega

def Named (paths : Int32 → Bytes) (events : List FileSystemEvent) : Prop := ∀ event ∈ events, event.path = paths event.wd

private theorem odds_named (events : List FileSystemEvent) (named : Named paths events) : Named paths (odds events) := by
  fun_induction odds events with
  | case1 => exact named
  | case2 event => exact fun _ member => absurd member (List.not_mem_nil)
  | case3 event kept rest ih =>
    intro other member
    rcases List.mem_cons.mp member with rfl | later
    · exact named _ (by simp)
    · exact ih (fun event member => named event (by simp [member])) other later

theorem watchedOf_named (read : Read) : Named paths (watchedOf paths read) := by
  intro event member
  obtain ⟨record,_,rfl⟩ := List.mem_map.mp member
  rfl

private theorem nextEvent_named (reads : List Read) (inotify : Inotify) (plain : Plain paths inotify)
    (events : List FileSystemEvent)
    (queued : Named paths inotify.mEventQueue) (kept : Named paths events) (event : FileSystemEvent) (last : Inotify)
    (rest : List Read) (ran : nextEvent inotify events reads = some (event,last,rest)) :
    event.path = paths event.wd ∧ Named paths last.mEventQueue := by
  refine nextEvent_induct (fun inotify events _ event last _ => Plain paths inotify → Named paths inotify.mEventQueue →
    Named paths events → event.path = paths event.wd ∧ Named paths last.mEventQueue)
    ?_ ?_ reads inotify events event last rest ran plain queued kept
  · intro inotify events _ event tail queue _ queued _
    rw [queue] at queued
    exact ⟨queued _ (by simp),fun other member => queued other (by simp [member])⟩
  · intro inotify events read reads event last rest queue ih plain queued kept
    have absorbed := absorb_cases inotify plain events read
    generalize absorb inotify events read = result at absorbed ih
    obtain ⟨middle,left⟩ := result
    dsimp only at absorbed ih
    have all : Named paths (events ++ watchedOf paths read) := by
      intro other member
      rcases List.mem_append.mp member with old | new
      · exact kept other old
      · exact watchedOf_named read other new
    cases absorbed with
    | nothing good same time empty => exact ih good (by rw [same]; exact queued) (fun _ none => by cases none)
    | erased good same time present behind => exact ih good (by rw [same]; exact queued) (odds_named _ all)
    | pushed good same time present current =>
      apply ih good ?_ all
      rw [same,queue]
      exact all

theorem returned_named (calls : Nat) (reads : List Read) (inotify : Inotify) (plain : Plain paths inotify)
    (queued : Named paths inotify.mEventQueue) : Named paths (returned inotify reads calls) := by
  induction calls generalizing inotify reads with
  | zero => exact fun _ none => by cases none
  | succ calls ih =>
    rw [returned]
    cases ran : getNextEvent inotify reads with
    | none => exact fun _ none => by cases none
    | some result =>
      obtain ⟨event,last,rest⟩ := result
      obtain ⟨named,later⟩ := nextEvent_named reads inotify plain [] queued (fun _ none => by cases none) event last rest ran
      have kept := (nextEvent_bound reads inotify plain [] event last rest ran).1
      intro other member
      rcases List.mem_cons.mp member with rfl | returned_later
      · exact named
      · exact ih rest last kept later other returned_later

/-- The calls of `getNextEvent` return exactly the watched records, each once and in
the kernel's order. -/
def Faithful (inotify : Inotify) (reads : List Read) : Prop :=
  ∃ calls, ∀ more, calls ≤ more →
    returned inotify reads more = watched (fun wd => valueAt inotify.mDirectorieMap wd) reads

/-- The daemon's object loses no record exactly if the clock readings at the watched
records, from 0 on, never decrease. -/
theorem delivered_iff (watches : Int32 → Option Bytes) (reads : List Read) :
    Faithful {closeWrite with mDirectorieMap := watches} reads ↔
      (0 :: clocks (fun wd => valueAt watches wd) reads).IsChain (· ≤ ·) := by
  let inotify : Inotify := {closeWrite with mDirectorieMap := watches}
  have plain : Plain (fun wd => valueAt watches wd) inotify := ⟨rfl,rfl,rfl,fun _ => rfl⟩
  constructor
  · rintro ⟨calls,faithful⟩
    by_contra back
    have fewer := returned_behind calls reads inotify plain back
    rw [faithful calls (Nat.le_refl _)] at fewer
    change _ < 0 + _ at fewer
    rw [Nat.zero_add] at fewer
    exact Nat.lt_irrefl _ fewer
  · intro forward
    refine ⟨(watched (fun wd => valueAt watches wd) reads).length,?_⟩
    intro more enough
    rw [returned_forward more reads inotify plain forward]
    exact List.take_of_length_le enough

def watchOne : Int32 → Option Bytes := fun wd => if wd = 1 then some (text "/var/spool/LMBd/message-1") else none

def readAt (clock : Int) : Read := ⟨[],[⟨1,8⟩],fun _ => false,clock⟩

/-- The clock is stepped back by a second between two writes: the second is lost. -/
theorem step_back_loses : ¬Faithful {closeWrite with mDirectorieMap := watchOne} [readAt 1000,readAt 999] := by
  rintro ⟨calls,faithful⟩
  have two := congrArg List.length (faithful (calls + 2) (Nat.le_add_right ..))
  have one := returned_behind (calls + 2) [readAt 1000,readAt 999] {closeWrite with mDirectorieMap := watchOne}
    (⟨rfl,rfl,rfl,fun _ => rfl⟩ : Plain (fun wd => valueAt watchOne wd) _) (by decide)
  rw [two] at one
  exact Nat.lt_irrefl _ (Nat.zero_add _ ▸ one)

end LEDMessageBoard.Delivery
