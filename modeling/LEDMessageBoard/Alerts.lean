import LEDMessageBoard.Context

/-! The alert pager of the Zabbix script: it turns each list of triggers into pages of
three texts and writes them into the spool files of the last slots it uses. -/
namespace LEDMessageBoard.Alerts
open General General.Program

inductive PyError where
  | indexError
  | unicodeEncodeError
deriving DecidableEq, Repr

structure Trigger where
  description : String
  value : Nat
  priority : Nat
deriving DecidableEq, Repr

inductive File where
  | message2
  | message3
  | message4
  | message5
deriving DecidableEq, Repr

structure Page where
  message3 : Bytes
  message4 : Bytes
  message5 : Bytes
deriving DecidableEq, Repr

/-- The spool directory, what is written to the open files but not flushed, and the
pages that were there when the script slept, oldest first. -/
structure Spool where
  disk : File → Bytes
  buffer : File → Bytes
  sleeps : List Page

def Spool.page (s : Spool) : Page := ⟨s.disk .message3,s.disk .message4,s.disk .message5⟩

abbrev ScriptM (α : Type) := Program Spool PyError α

def openW (file : File) : ScriptM Unit :=
  modify fun s => {s with disk := Function.update s.disk file [],buffer := Function.update s.buffer file []}

def write (file : File) (bytes : Bytes) : ScriptM Unit :=
  modify fun s => {s with buffer := Function.update s.buffer file (s.buffer file ++ bytes)}

def close (file : File) : ScriptM Unit :=
  modify fun s => {s with
    disk := Function.update s.disk file (s.disk file ++ s.buffer file)
    buffer := Function.update s.buffer file []}

def sleep : ScriptM Unit := modify fun s => {s with sleeps := s.sleeps ++ [s.page]}

/-- What one call of `Alerts` gets from the server: the triggers, and for each page the
text that `Stats` makes of the other answers. -/
structure Poll where
  triggers : List Trigger
  stats : Nat → Bytes

def prioritylist : List Bytes :=
  [text "N/A",text "Info",text "Warn",text "Average",text "High",text "Critical"]

def item (list : List Bytes) (i : Nat) : Except PyError Bytes :=
  match list[i]? with
  | some value => .ok value
  | none => .error .indexError

def isAscii (characters : String) : Bool := characters.toList.all fun c => c.toNat < 128

/-- `"Error:{0}, Priority:{1}".format(…)`: a byte string takes only ASCII. -/
def format (description : String) (priority : Bytes) : Except PyError Bytes :=
  if isAscii description then .ok (text "Error:" ++ text description ++ text ", Priority:" ++ priority)
  else .error .unicodeEncodeError

def collect (errorlist : List Bytes) (t : Trigger) : Except PyError (List Bytes) :=
  if t.value = 1 ∧ t.priority > 1 then do
    let priority ← item prioritylist t.priority
    let line ← format t.description priority
    return errorlist ++ [line]
  else return errorlist

/-- `Stats`. That it gets its text, without raising anything, is assumed. -/
def stats (bytes : Bytes) : ScriptM Unit := do
  openW .message2
  if bytes.length > 0 then write .message2 bytes
  close .message2

def showPage (errorlist : List Bytes) (bytes : Bytes) (i : Nat) : ScriptM Unit := do
  stats bytes
  openW .message3
  if i < errorlist.length then
    write .message3 (← checked (item errorlist i))
    -- the other files are closed in any case
    close .message3
  openW .message4
  if i + 1 < errorlist.length then write .message4 (← checked (item errorlist (i + 1)))
  close .message4
  openW .message5
  if i + 2 < errorlist.length then write .message5 (← checked (item errorlist (i + 2)))
  close .message5
  sleep

/-- `range(0, stop, 3)` -/
def range3 (stop : Nat) : List Nat := (List.range ((stop + 2) / 3)).map fun k => 3 * k

def alerts (poll : Poll) : ScriptM Unit := do
  let errorlist ← checked (poll.triggers.foldlM collect [])
  if errorlist.length = 0 then
    stats (poll.stats 0)
    sleep
  else inSequence ((range3 errorlist.length).map fun i => showPage errorlist (poll.stats i) i)

def shown (triggers : List Trigger) : List Trigger := triggers.filter fun t => t.value = 1 ∧ t.priority > 1

def alertText (t : Trigger) : Bytes :=
  text "Error:" ++ text t.description ++ text ", Priority:" ++ (prioritylist[t.priority]?).getD []

def pages : List Bytes → List Page
  | [] => []
  | [first] => [⟨first,[],[]⟩]
  | [first,second] => [⟨first,second,[]⟩]
  | first :: second :: third :: rest => ⟨first,second,third⟩ :: pages rest

/-- What the three files should hold at the sleeps of a call. -/
def current (triggers : List Trigger) : List Page :=
  if shown triggers = [] then [⟨[],[],[]⟩] else pages ((shown triggers).map alertText)

/-- Every call of a history comes to its end and shows the alerts of its own list. -/
def ShowsCurrent (s : Spool) (polls : List Poll) : Prop :=
  match polls with
  | [] => True
  | poll :: rest => ∃ next, exec (alerts poll) s = (.ok (),next) ∧
      next.sleeps = s.sleeps ++ current poll.triggers ∧ ShowsCurrent next rest

private theorem item_eq (list : List Bytes) (i : Nat) (inside : i < list.length) : item list i = .ok ((list[i]?).getD []) := by
  rw [item,List.getElem?_eq_getElem inside]
  rfl

/-- Each alert is on one page and the pages keep their order. -/
theorem pages_texts (list : List Bytes) (texts : ∀ entry ∈ list, entry ≠ []) :
    ((pages list).flatMap fun page => [page.message3,page.message4,page.message5]).filter (· ≠ []) = list := by
  fun_induction pages list with
  | case1 => rfl
  | case2 first => simp [texts first (by simp)]
  | case3 first second => simp [texts first (by simp),texts second (by simp)]
  | case4 first second third rest ih =>
    have later := ih fun entry member => texts entry (by simp [member])
    rw [List.flatMap_cons,List.filter_append,later]
    simp [texts first (by simp),texts second (by simp),texts third (by simp)]

private theorem pages_eq (list : List Bytes) : pages list = (range3 list.length).map fun i =>
    ⟨(list[i]?).getD [],(list[i + 1]?).getD [],(list[i + 2]?).getD []⟩ := by
  fun_induction pages list with
  | case1 => rfl
  | case2 first => simp [range3]
  | case3 first second => simp [range3]
  | case4 first second third rest ih =>
    have rounds : (rest.length + 1 + 1 + 1 + 2) / 3 = (rest.length + 2) / 3 + 1 := by omega
    rw [ih]
    simp only [range3,List.length_cons,rounds,List.range_succ_eq_map,List.map_cons,List.map_map]
    congr 1

private theorem collect_shown (errorlist : List Bytes) (t : Trigger) (severity : t.priority ≤ 5) :
    collect errorlist t =
      if t.value = 1 ∧ t.priority > 1 then
        if isAscii t.description then .ok (errorlist ++ [alertText t]) else .error .unicodeEncodeError
      else .ok errorlist := by
  have named := item_eq prioritylist t.priority (Nat.lt_succ_of_le severity)
  unfold collect format
  split
  · rw [named]
    cases isAscii t.description <;> rfl
  · rfl

private theorem foldlM_collect (triggers : List Trigger) (severities : ∀ t ∈ triggers, t.priority ≤ 5)
    (errorlist : List Bytes) :
    triggers.foldlM collect errorlist =
      if ∀ t ∈ shown triggers, isAscii t.description then .ok (errorlist ++ (shown triggers).map alertText)
      else .error .unicodeEncodeError := by
  induction triggers generalizing errorlist with
  | nil => simp [shown,pure,Except.pure]
  | cons t rest ih =>
    have later := ih fun other member => severities other (by simp [member])
    rw [List.foldlM_cons,collect_shown errorlist t (severities t (by simp))]
    by_cases relevant : t.value = 1 ∧ t.priority > 1
    · have first : shown (t :: rest) = t :: shown rest := List.filter_cons_of_pos (by simpa using relevant)
      rw [if_pos relevant,first]
      by_cases ascii : isAscii t.description
      · rw [if_pos ascii]
        simp only [bind,Except.bind,later,List.forall_mem_cons,ascii,true_and,List.map_cons,List.append_assoc,
          List.singleton_append]
      · rw [if_neg ascii,if_neg (fun all => ascii (all t (by simp)))]
        rfl
    · have skipped : shown (t :: rest) = shown rest := List.filter_cons_of_neg (by simpa using relevant)
      rw [if_neg relevant,skipped]
      exact later errorlist

private theorem exec_stats (bytes : Bytes) (s : Spool) :
    ∃ next, exec (stats bytes) s = (.ok (),next) ∧ next.page = s.page ∧ next.sleeps = s.sleeps := by
  unfold stats
  split
  · exact ⟨_,rfl,rfl,rfl⟩
  · exact ⟨_,rfl,rfl,rfl⟩

def rewrite (file : File) (errorlist : List Bytes) (i : Nat) : ScriptM Unit := do
  openW file
  if i < errorlist.length then write file (← checked (item errorlist i))
  close file

private theorem exec_rewrite (file : File) (errorlist : List Bytes) (i : Nat) (s : Spool) :
    exec (rewrite file errorlist i) s = (.ok (),{s with
      disk := Function.update s.disk file ((errorlist[i]?).getD [])
      buffer := Function.update s.buffer file []}) := by
  by_cases inside : i < errorlist.length
  · simp [rewrite,openW,write,close,exec_bind,inside,item_eq errorlist i inside]
  · simp [rewrite,openW,close,exec_bind,inside]

private theorem showPage_eq (errorlist : List Bytes) (bytes : Bytes) (i : Nat) (inside : i < errorlist.length) :
    showPage errorlist bytes i = (do
      stats bytes
      rewrite .message3 errorlist i
      rewrite .message4 errorlist (i + 1)
      rewrite .message5 errorlist (i + 2)
      sleep) := by
  by_cases second : i + 1 < errorlist.length <;> by_cases third : i + 2 < errorlist.length <;>
    simp [showPage,rewrite,inside,second,third]

private theorem exec_showPage (errorlist : List Bytes) (bytes : Bytes) (i : Nat) (inside : i < errorlist.length) (s : Spool) :
    ∃ next, exec (showPage errorlist bytes i) s = (.ok (),next) ∧
      next.page = ⟨(errorlist[i]?).getD [],(errorlist[i + 1]?).getD [],(errorlist[i + 2]?).getD []⟩ ∧
      next.sleeps = s.sleeps ++ [next.page] := by
  obtain ⟨middle,ran,_,slept⟩ := exec_stats bytes s
  rw [showPage_eq errorlist bytes i inside,exec_bind_ok ran,exec_bind_ok (exec_rewrite _ _ _ _),
    exec_bind_ok (exec_rewrite _ _ _ _),exec_bind_ok (exec_rewrite _ _ _ _)]
  exact ⟨_,rfl,rfl,by rw [← slept]; rfl⟩

private theorem exec_showPages (errorlist : List Bytes) (texts : Nat → Bytes) (indices : List Nat)
    (inside : ∀ i ∈ indices, i < errorlist.length) (some_page : indices ≠ []) (s : Spool) :
    ∃ next, exec (inSequence (indices.map fun i => showPage errorlist (texts i) i)) s = (.ok (),next) ∧
      next.sleeps = s.sleeps ++ indices.map (fun i =>
        ⟨(errorlist[i]?).getD [],(errorlist[i + 1]?).getD [],(errorlist[i + 2]?).getD []⟩) ∧
      ∃ i ∈ indices, next.page.message3 = (errorlist[i]?).getD [] := by
  induction indices generalizing s with
  | nil => exact absurd rfl some_page
  | cons i rest ih =>
    obtain ⟨middle,ran,page,slept⟩ := exec_showPage errorlist (texts i) i (inside i (by simp)) s
    rw [List.map_cons,inSequence,exec_bind_ok ran]
    by_cases last : rest = []
    · subst last
      exact ⟨middle,rfl,by rw [slept,page]; rfl,i,by simp,by rw [page]⟩
    · obtain ⟨next,run,sleeps,index,member,text⟩ := ih (fun j member => inside j (by simp [member])) last middle
      refine ⟨next,run,?_,index,by simp [member],text⟩
      rw [sleeps,slept,page,List.append_assoc]
      rfl

private theorem range3_inside (stop : Nat) : ∀ i ∈ range3 stop, i < stop := by
  intro i member
  obtain ⟨k,bound,rfl⟩ := List.mem_map.mp member
  rw [List.mem_range] at bound
  omega

def Spool.Cleared (s : Spool) : Prop := s.page = ⟨[],[],[]⟩

private theorem alertText_nonempty (t : Trigger) : alertText t ≠ [] := by
  intro empty
  cases empty

private theorem exec_alerts_collected (poll : Poll) (errorlist : List Bytes) (s : Spool)
    (collected : poll.triggers.foldlM collect [] = .ok errorlist) :
    exec (alerts poll) s =
      if errorlist.length = 0 then exec (do stats (poll.stats 0); sleep) s
      else exec (inSequence ((range3 errorlist.length).map fun i => showPage errorlist (poll.stats i) i)) s := by
  rw [alerts,exec_bind_ok ((exec_checked _ s).trans (by rw [collected]))]
  split <;> rfl

private theorem range3_nonempty (stop : Nat) (positive : 0 < stop) : range3 stop ≠ [] := by
  intro empty
  have rounds := congrArg List.length empty
  rw [range3,List.length_map,List.length_range,List.length_nil] at rounds
  omega

private theorem exec_quiet (bytes : Bytes) (s : Spool) :
    ∃ next, exec (do stats bytes; sleep) s = (.ok (),next) ∧ next.page = s.page ∧ next.sleeps = s.sleeps ++ [s.page] := by
  obtain ⟨middle,ran,page,slept⟩ := exec_stats bytes s
  refine ⟨{middle with sleeps := middle.sleeps ++ [middle.page]},?_,page,by rw [slept,page]⟩
  rw [exec_bind_ok ran]
  rfl

/-- The last page of a list that is not empty has a text in its first file. -/
theorem exec_busy (errorlist : List Bytes) (texts : Nat → Bytes) (some_alert : 0 < errorlist.length)
    (nonempty : ∀ entry ∈ errorlist, entry ≠ []) (s : Spool) :
    ∃ next, exec (inSequence ((range3 errorlist.length).map fun i => showPage errorlist (texts i) i)) s = (.ok (),next) ∧
      ¬next.Cleared ∧ next.sleeps = s.sleeps ++ pages errorlist := by
  obtain ⟨next,ran,sleeps,i,member,first⟩ := exec_showPages errorlist texts (range3 errorlist.length)
    (range3_inside _) (range3_nonempty _ some_alert) s
  refine ⟨next,ran,?_,by rw [sleeps,pages_eq]⟩
  intro cleared
  have inside := range3_inside _ i member
  rw [cleared,List.getElem?_eq_getElem inside] at first
  exact nonempty _ (List.getElem_mem inside) first.symm

/-- What one call of `Alerts` does: it stops at a description that is not ASCII, leaves
the files alone if there is nothing to show, and shows the pages of its list otherwise. -/
theorem exec_alerts (poll : Poll) (severities : ∀ t ∈ poll.triggers, t.priority ≤ 5) (s : Spool) :
    (¬(∀ t ∈ shown poll.triggers, isAscii t.description) ∧ exec (alerts poll) s = (.error .unicodeEncodeError,s)) ∨
    ((∀ t ∈ shown poll.triggers, isAscii t.description) ∧ ∃ next, exec (alerts poll) s = (.ok (),next) ∧
      ((shown poll.triggers = [] ∧ next.page = s.page ∧ next.sleeps = s.sleeps ++ [s.page]) ∨
        (shown poll.triggers ≠ [] ∧ ¬next.Cleared ∧
          next.sleeps = s.sleeps ++ pages ((shown poll.triggers).map alertText)))) := by
  have collected := foldlM_collect poll.triggers severities []
  by_cases ascii : ∀ t ∈ shown poll.triggers, isAscii t.description
  · rw [if_pos ascii,List.nil_append] at collected
    refine .inr ⟨ascii,?_⟩
    rw [exec_alerts_collected poll _ s collected]
    by_cases none : shown poll.triggers = []
    · obtain ⟨next,ran,page,slept⟩ := exec_quiet (poll.stats 0) s
      refine ⟨next,?_,.inl ⟨none,page,slept⟩⟩
      rw [none,List.map_nil,List.length_nil,if_pos rfl]
      exact ran
    · have some_alert : 0 < ((shown poll.triggers).map alertText).length := by
        rw [List.length_map]
        exact List.length_pos_iff.mpr none
      have nonempty : ∀ entry ∈ (shown poll.triggers).map alertText, entry ≠ [] := by
        intro entry member
        obtain ⟨t,_,rfl⟩ := List.mem_map.mp member
        exact alertText_nonempty t
      obtain ⟨next,ran,filled,slept⟩ := exec_busy _ poll.stats some_alert nonempty s
      refine ⟨next,?_,.inr ⟨none,filled,slept⟩⟩
      rw [if_neg (by omega)]
      exact ran
  · rw [if_neg ascii] at collected
    refine .inl ⟨ascii,?_⟩
    simp [alerts,exec_bind,collected]

structure Settled (s : Spool) (polls : List Poll) : Prop where
  ascii : ∀ poll ∈ polls, ∀ t ∈ shown poll.triggers, isAscii t.description
  quiet : ∀ earlier poll later, polls = earlier ++ poll :: later → shown poll.triggers = [] →
    s.Cleared ∧ ∀ past ∈ earlier, shown past.triggers = []

private theorem Settled.cons_iff (s next : Spool) (poll : Poll) (rest : List Poll)
    (cleared : next.Cleared ↔ s.Cleared ∧ shown poll.triggers = []) :
    Settled s (poll :: rest) ↔ (∀ t ∈ shown poll.triggers, isAscii t.description) ∧
      (shown poll.triggers = [] → s.Cleared) ∧ Settled next rest := by
  constructor
  · intro settled
    refine ⟨settled.ascii poll (by simp),fun none => (settled.quiet [] poll rest rfl none).1,?_,?_⟩
    · exact fun other member => settled.ascii other (by simp [member])
    · rintro earlier other later rfl none
      obtain ⟨start,past⟩ := settled.quiet (poll :: earlier) other later rfl none
      exact ⟨cleared.mpr ⟨start,past poll (by simp)⟩,fun call member => past call (by simp [member])⟩
  · rintro ⟨ascii,start,settled⟩
    constructor
    · exact List.forall_mem_cons.mpr ⟨ascii,settled.ascii⟩
    · intro earlier other later split none
      cases earlier with
      | nil =>
        obtain ⟨rfl,rfl⟩ := List.cons.inj split
        exact ⟨start none,nofun⟩
      | cons first earlier =>
        obtain ⟨rfl,rfl⟩ := List.cons.inj split
        obtain ⟨onward,past⟩ := settled.quiet earlier other later rfl none
        obtain ⟨begun,empty⟩ := cleared.mp onward
        exact ⟨begun,List.forall_mem_cons.mpr ⟨empty,past⟩⟩

private theorem showsCurrent_cons (s next : Spool) (poll : Poll) (rest : List Poll)
    (ran : exec (alerts poll) s = (.ok (),next)) :
    ShowsCurrent s (poll :: rest) ↔ next.sleeps = s.sleeps ++ current poll.triggers ∧ ShowsCurrent next rest := by
  constructor
  · rintro ⟨last,returned,shows⟩
    rw [ran] at returned
    cases returned
    exact shows
  · intro shows
    exact ⟨next,ran,shows⟩

/-- Over every history of trigger lists the files show exactly the current alerts if and
only if a list without alerts comes only while the files have been empty all along. -/
theorem showsCurrent_iff (s : Spool) (polls : List Poll)
    (severities : ∀ poll ∈ polls, ∀ t ∈ poll.triggers, t.priority ≤ 5) : ShowsCurrent s polls ↔ Settled s polls := by
  induction polls generalizing s with
  | nil =>
    refine ⟨fun _ => ⟨nofun,?_⟩,fun _ => trivial⟩
    intro earlier poll later split
    cases earlier <;> cases split
  | cons poll rest ih =>
    have later := fun next => ih next fun other member => severities other (by simp [member])
    rcases exec_alerts poll (severities poll (by simp)) s with ⟨refused,ran⟩ | ⟨ascii,next,ran,quiet | busy⟩
    · constructor
      · rintro ⟨next,returned,_⟩
        rw [ran] at returned
        cases returned
      · intro settled
        exact absurd (settled.ascii poll (by simp)) refused
    · obtain ⟨none,page,slept⟩ := quiet
      have cleared : next.Cleared ↔ s.Cleared ∧ shown poll.triggers = [] := by
        rw [Spool.Cleared,page]
        exact ⟨fun empty => ⟨empty,none⟩,fun both => both.1⟩
      have start : next.sleeps = s.sleeps ++ current poll.triggers ↔ s.Cleared := by
        rw [slept,List.append_cancel_left_eq,current,if_pos none,List.cons.injEq,Spool.Cleared]
        exact and_iff_left rfl
      rw [Settled.cons_iff s next poll rest cleared,showsCurrent_cons s next poll rest ran,start,later next]
      exact ⟨fun shows => ⟨ascii,fun _ => shows.1,shows.2⟩,fun settled => ⟨settled.2.1 none,settled.2.2⟩⟩
    · obtain ⟨some_alert,filled,slept⟩ := busy
      have cleared : next.Cleared ↔ s.Cleared ∧ shown poll.triggers = [] :=
        ⟨fun empty => absurd empty filled,fun both => absurd both.2 some_alert⟩
      rw [Settled.cons_iff s next poll rest cleared,showsCurrent_cons s next poll rest ran,later next]
      refine ⟨fun shows => ⟨ascii,fun none => absurd none some_alert,shows.2⟩,fun settled => ⟨?_,settled.2.2⟩⟩
      rw [slept,current,if_neg some_alert]

def outage : Poll := ⟨[⟨"Server down",1,4⟩],fun _ => text "WAN Stats"⟩

def recovered : Poll := ⟨[⟨"Server down",0,4⟩],fun _ => text "WAN Stats"⟩

def emptySpool : Spool := ⟨fun _ => [],fun _ => [],[]⟩

theorem showsCurrent_outage : ShowsCurrent emptySpool [recovered,outage] ↔ Settled emptySpool [recovered,outage] :=
  showsCurrent_iff emptySpool [recovered,outage] (by decide)

/-- The alert is still on the board after the server has recovered. -/
theorem alert_stays : ¬ShowsCurrent emptySpool [outage,recovered] := by
  rintro ⟨_,first,_,_,second,shown,_⟩
  cases first
  cases second
  exact absurd shown (by decide)

end LEDMessageBoard.Alerts
