import LEDMessageBoard.Cli
import Mathlib.Data.List.Flatten

/-! The log file: `OutputFile` renames it when it has grown and starts a new one. -/
namespace LEDMessageBoard.LogFile
open Config Cli

/-- The files by their names. -/
abbrev Files := Bytes → Option Bytes

def content (files : Files) (name : Bytes) : Bytes := (files name).getD []

/-- "file … not opened", which ends the process where it leaves the destructor of a `Log`. -/
structure NotOpened where
  filename : Bytes
deriving DecidableEq, Repr

structure Settings where
  maxStartupSize : Int
  maxSize : Int
  filename : Bytes
  filenameOld : Bytes
deriving DecidableEq, Repr

/-- `Config::get` -/
def getText (output : LogOutput) (key fallback : Bytes) : Bytes := (output.options.lookup key).getD fallback

def getLong (output : LogOutput) (key : Bytes) (fallback : Int) : Int := ((output.options.lookup key).map strtol).getD fallback

def Settings.ofConfig (output : LogOutput) : Settings where
  maxStartupSize := getLong output (text "max_startup_size") 0
  maxSize := getLong output (text "max_size") (1024 * 1024)
  filename := getText output (text "filename") (text "log.txt")
  filenameOld := getText output (text "filename_old") (text "log.old.txt")

/-- `OutputFile`: `mpFile` is not null, and `mSize`. -/
structure OutputFile where
  settings : Settings
  isOpen : Bool
  size : Int

/-- With the files it works on. -/
structure Logging where
  out : OutputFile
  files : Files

/-- `stat`, which may find no file. -/
def statSize (unset : Int) (files : Files) (name : Bytes) : Int :=
  match files name with
  | none => unset
  | some bytes => bytes.length

/-- `remove(filenameOld)` and `rename(filename,filenameOld)`; there may be no file to rename. -/
def renamed (files : Files) (settings : Settings) : Files :=
  let removed := Function.update files settings.filenameOld none
  match removed settings.filename with
  | none => removed
  | some bytes => Function.update (Function.update removed settings.filename none) settings.filenameOld (some bytes)

namespace Logging

/-- `fopen(filename, "ab")` -/
def openFile (opens : Bool) (s : Logging) : Except NotOpened Logging :=
  if opens then
    return ⟨{s.out with isOpen := true},
      Function.update s.files s.out.settings.filename (some (content s.files s.out.settings.filename))⟩
  else throw ⟨s.out.settings.filename⟩

/-- Only the size of an open file is forgotten. -/
def close (s : Logging) : Logging := if s.out.isOpen then {s with out := {s.out with isOpen := false,size := 0}} else s

def rotate (opens : Bool) (s : Logging) : Except NotOpened Logging :=
  let closed := s.close
  openFile opens {closed with files := renamed closed.files closed.out.settings}

/-- The constructor. `unset` is what `mSize` holds before anything is assigned to it. -/
def start (opens : Bool) (unset : Int) (settings : Settings) (files : Files) : Except NotOpened Logging :=
  let size := statSize unset files settings.filename
  let s : Logging := ⟨⟨settings,false,size⟩,files⟩
  if settings.maxStartupSize < size then s.rotate opens else s.openFile opens

/-- `fprintf` of a whole entry, and `fflush`. -/
def append (entry : Bytes) (s : Logging) : Logging :=
  if s.out.isOpen then
    ⟨{s.out with size := s.out.size + entry.length},
      Function.update s.files s.out.settings.filename (some (content s.files s.out.settings.filename ++ entry))⟩
  else s

/-- The test before each entry. -/
def shortened (opens : Bool) (s : Logging) : Except NotOpened Logging :=
  if s.out.settings.maxSize < s.out.size then s.rotate opens else return s

def output (opens : Bool) (entry : Bytes) (s : Logging) : Except NotOpened Logging := do
  let s ← s.shortened opens
  return s.append entry

end Logging

structure DateTime where
  year : Nat
  month : Nat
  day : Nat
  hour : Nat
  minute : Nat
  second : Nat
  ms : Nat

/-- `%.*u` -/
def digits (width value : Nat) : Bytes :=
  let written := text (toString value)
  List.replicate (width - written.length) 0x30 ++ written

/-- "%.4u-%.2u-%.2u %.2u:%.2u:%.2u.%.3u  %-12s %s %s\n" -/
def entry (time : DateTime) (channel : Bytes) (severity : Level) (stream : Bytes) : Bytes :=
  digits 4 time.year ++ text "-" ++ digits 2 time.month ++ text "-" ++ digits 2 time.day ++ text " " ++
    digits 2 time.hour ++ text ":" ++ digits 2 time.minute ++ text ":" ++ digits 2 time.second ++ text "." ++
    digits 3 time.ms ++ text "  " ++ (cString channel ++ List.replicate (12 - (cString channel).length) 0x20) ++ text " " ++
    severity.toString ++ text " " ++ cString stream ++ text "\n"

/-- What is logged, and whether the file can be opened at that time. -/
structure Entry where
  time : DateTime
  channel : Bytes
  severity : Level
  stream : Bytes
  opens : Bool

def Entry.bytes (e : Entry) : Bytes := entry e.time e.channel e.severity e.stream

def outputs (s : Logging) (entries : List Entry) : Except NotOpened Logging :=
  entries.foldlM (fun s entry => s.output entry.opens entry.bytes) s

section Steps

variable {s next : Logging} {opens : Bool}

private theorem content_update (files : Files) (name bytes other : Bytes) :
    content (Function.update files name (some bytes)) other = if other = name then bytes else content files other := by
  unfold content
  rw [Function.update_apply]
  split
  next => rfl
  next => rfl

private theorem renamed_contents (files : Files) {settings : Settings} (different : settings.filename ≠ settings.filenameOld) :
    content (renamed files settings) settings.filenameOld = content files settings.filename ∧
      content (renamed files settings) settings.filename = [] := by
  have removed : Function.update files settings.filenameOld none settings.filename = files settings.filename :=
    Function.update_of_ne different _ _
  unfold renamed content
  dsimp only
  rw [removed]
  cases found : files settings.filename with
  | none => simp [removed,found]
  | some bytes => simp [different]

private theorem openFile_contents (ok : s.openFile opens = .ok next) :
    next.out = {s.out with isOpen := true} ∧ ∀ name, content next.files name = content s.files name := by
  unfold Logging.openFile at ok
  split at ok
  next =>
    cases ok
    refine ⟨rfl,?_⟩
    intro name
    rw [content_update]
    split
    next same => rw [same]
    next => rfl
  next => cases ok

private theorem close_out (s : Logging) :
    s.close.out = ⟨s.out.settings,false,if s.out.isOpen then 0 else s.out.size⟩ ∧ s.close.files = s.files := by
  obtain ⟨⟨settings,isOpen,size⟩,files⟩ := s
  cases isOpen with
  | true => exact ⟨rfl,rfl⟩
  | false => exact ⟨rfl,rfl⟩

private theorem rotate_contents (different : s.out.settings.filename ≠ s.out.settings.filenameOld)
    (ok : s.rotate opens = .ok next) :
    next.out = ⟨s.out.settings,true,if s.out.isOpen then 0 else s.out.size⟩ ∧
      content next.files s.out.settings.filenameOld = content s.files s.out.settings.filename ∧
      content next.files s.out.settings.filename = [] := by
  obtain ⟨shut,same⟩ := close_out s
  obtain ⟨out,contents⟩ := openFile_contents ok
  obtain ⟨older,current⟩ := renamed_contents s.files different
  rw [contents,contents,same,shut,out,shut]
  exact ⟨rfl,older,current⟩

/-- The two files while the log is open. -/
structure Shows (settings : Settings) (s : Logging) (size : Int) (older current : Bytes) : Prop where
  configured : s.out.settings = settings
  opened : s.out.isOpen = true
  size : s.out.size = size
  older : content s.files settings.filenameOld = older
  current : content s.files settings.filename = current

/-- The size of a file that is renamed at the start is not forgotten. -/
theorem start_shows {settings : Settings} (different : settings.filename ≠ settings.filenameOld) {unset : Int} {files : Files}
    (ok : Logging.start opens unset settings files = .ok s) :
    (settings.maxStartupSize < statSize unset files settings.filename ∧
        Shows settings s (statSize unset files settings.filename) (content files settings.filename) []) ∨
      (statSize unset files settings.filename ≤ settings.maxStartupSize ∧
        Shows settings s (statSize unset files settings.filename) (content files settings.filenameOld)
          (content files settings.filename)) := by
  unfold Logging.start at ok
  dsimp only at ok
  split at ok
  next large =>
    obtain ⟨out,older,current⟩ := rotate_contents different ok
    exact .inl ⟨large,by rw [out],by rw [out],by rw [out]; rfl,older,current⟩
  next small =>
    obtain ⟨out,contents⟩ := openFile_contents ok
    exact .inr ⟨Int.not_lt.mp small,by rw [out],by rw [out],by rw [out],contents _,contents _⟩

private theorem append_shows {settings : Settings} (different : settings.filename ≠ settings.filenameOld) {size : Int}
    {older current : Bytes} (entry : Bytes) (shows : Shows settings s size older current) :
    Shows settings (s.append entry) (size + entry.length) older (current ++ entry) := by
  obtain ⟨configured,opened,size,older,current⟩ := shows
  unfold Logging.append
  rw [if_pos opened,configured]
  refine ⟨configured,opened,by rw [size],?_,?_⟩
  · rw [content_update,if_neg different.symm]
    exact older
  · rw [content_update,if_pos rfl,current]

private theorem output_shows {settings : Settings} (different : settings.filename ≠ settings.filenameOld) {size : Int}
    {older current entry : Bytes} (shows : Shows settings s size older current) (ok : s.output opens entry = .ok next) :
    (settings.maxSize < size ∧ Shows settings next entry.length current entry) ∨
      (size ≤ settings.maxSize ∧ Shows settings next (size + entry.length) older (current ++ entry)) := by
  obtain ⟨middle,ready,done⟩ := except_bind_success _ _ _ ok
  cases done
  have whole := shows
  obtain ⟨configured,opened,tracked,_,there⟩ := shows
  unfold Logging.shortened at ready
  rw [configured,tracked] at ready
  split at ready
  next large =>
    rw [← configured] at different
    obtain ⟨out,older,current⟩ := rotate_contents different ready
    rw [configured] at different out older current
    have fresh : Shows settings middle 0 (content s.files settings.filename) [] :=
      ⟨by rw [out],by rw [out],by rw [out,opened]; rfl,older,current⟩
    have written := append_shows different entry fresh
    rw [Int.zero_add,there] at written
    exact .inl ⟨large,written⟩
  next small =>
    cases ready
    exact .inr ⟨Int.not_lt.mp small,append_shows different entry whole⟩

end Steps

section Configured

private theorem digit_unspaced {c : UInt8} (digit : isDigit c = true) : isSpace c = false := by
  have low : 48 ≤ c.toNat := by
    simp only [isDigit,Bool.and_eq_true,decide_eq_true_eq,UInt8.le_iff_toNat_le] at digit
    exact digit.1
  have blank : c ≠ 32 := by
    intro same
    subst same
    exact absurd low (by decide)
  have high : ¬c ≤ 13 := by
    rw [UInt8.le_iff_toNat_le]
    simp
    omega
  simp [isSpace,blank,high]

/-- What `atol` makes of a number that was written with `to_string`. -/
theorem strtol_decimal (value : UInt64) : strtol (cString (decimal value)) = min (value.toNat : Int) (2^63 - 1) := by
  obtain ⟨read,all_digits⟩ := magnitude_decimal value.toNat
  have digit (c : UInt8) (member : c ∈ decimal value) : isDigit c = true := List.all_eq_true.mp all_digits c member
  have clean : 0 ∉ decimal value := fun zero => absurd (digit 0 zero) (by decide)
  rw [cString_clean _ clean]
  have plain : signed (decimal value) = value.toNat := by
    have front : (decimal value).dropWhile isSpace = decimal value := by
      cases written : decimal value with
      | nil => rfl
      | cons c rest =>
        have first := digit c (by rw [written]; exact List.mem_cons_self)
        exact List.dropWhile_cons_of_neg (by rw [digit_unspaced first]; decide)
    unfold signed
    rw [front]
    split
    next minus => exact absurd (digit 0x2D (minus ▸ List.mem_cons_self)) (by decide)
    next plus => exact absurd (digit 0x2B (plus ▸ List.mem_cons_self)) (by decide)
    next => exact congrArg Int.ofNat read
  rw [strtol,plain]
  omega

private theorem setOption_last (front : List LogOutput) (output : LogOutput) (key value : Bytes) :
    setOption (front ++ [output]) key value = front ++ [{output with options := (key,cString value) :: output.options}] := by
  simp [setOption]

/-- The log file that a configuration file leads to. -/
theorem loaded_settings {values : Translator} {files : FileSystem} {file : Option Tree} {ctx loaded : LMBCTX} {level : Level}
    (ok : load values files file ctx = .ok (loaded,level)) {output : LogOutput} (last : loaded.configList.getLast? = some output) :
    Settings.ofConfig output = ⟨0,min loaded.maxlogfilesize.toNat (2^63 - 1),cString loaded.logpath,
      cString (loaded.logpath ++ text ".old")⟩ := by
  cases file with
  | none => cases ok
  | some tree =>
    obtain ⟨middle,_,rest⟩ := except_bind_success _ _ _ ok
    obtain ⟨logged,_,done⟩ := except_bind_success _ _ _ rest
    cases done
    change (loadLogFile values tree logged).configList.getLast? = some output at last
    rw [loadLogFile] at last
    dsimp only at last
    rw [addOutput,setOption_last,setOption_last,setOption_last,setOption_last,List.getLast?_concat] at last
    cases last
    have maximum := strtol_decimal (tree.getSize values .maxLogFileSize (1024*1024))
    have zero : strtol (cString (text "0")) = 0 := by decide
    have startup : text "max_startup_size" ≠ text "max_size" := by decide
    have old : text "filename_old" ≠ text "max_size" ∧ text "filename_old" ≠ text "max_startup_size" := by decide
    have name : text "filename" ≠ text "max_size" ∧ text "filename" ≠ text "max_startup_size" ∧
        text "filename" ≠ text "filename_old" := by decide
    simp only [Settings.ofConfig,getLong,getText,List.lookup_cons,beq_self_eq_true,beq_eq_false_iff_ne.mpr startup,
      beq_eq_false_iff_ne.mpr old.1,beq_eq_false_iff_ne.mpr old.2,beq_eq_false_iff_ne.mpr name.1,
      beq_eq_false_iff_ne.mpr name.2.1,beq_eq_false_iff_ne.mpr name.2.2,Option.map_some,Option.getD_some,maximum,zero]
    rfl

end Configured

def texts (entries : List Entry) : List Bytes := entries.map Entry.bytes

private theorem outputs_keep (fact : Logging → List Bytes → Prop)
    (kept : ∀ s written opens entry next, fact s written → s.output opens entry = .ok next → fact next (written ++ [entry]))
    (entries : List Entry) (s last : Logging) (written : List Bytes) (begun : fact s written)
    (ran : outputs s entries = .ok last) : fact last (written ++ texts entries) := by
  induction entries generalizing s written with
  | nil =>
    cases ran
    simpa [texts] using begun
  | cons entry rest ih =>
    obtain ⟨next,first,others⟩ := except_bind_success _ _ _ ran
    have after := ih next (written ++ [entry.bytes]) (kept s written entry.opens entry.bytes next begun first) others
    rw [List.append_assoc] at after
    exact after

/-- The files hold the end of what was there before and of what has been written since. The
size is known where there was a file at the start. -/
def Latest (settings : Settings) (known : Prop) (before : List Bytes) (s : Logging) (written : List Bytes) : Prop :=
  ∃ size lost older recent, Shows settings s size older.flatten recent.flatten ∧ before ++ written = lost ++ older ++ recent ∧
    (known → recent.flatten.length ≤ size) ∧
    (known → ∀ front entry, written = front ++ [entry] → recent.flatten.length ≤ max settings.maxSize 0 + entry.length)

private theorem latest_start {settings : Settings} (different : settings.filename ≠ settings.filenameOld) {opens : Bool}
    {unset : Int}
    {files : Files} {s : Logging} (started : Logging.start opens unset settings files = .ok s) :
    Latest settings (files settings.filename ≠ none) [content files settings.filenameOld,content files settings.filename]
      s [] := by
  have size (known : files settings.filename ≠ none) :
      ((content files settings.filename).length : Int) = statSize unset files settings.filename := by
    obtain ⟨bytes,found⟩ := Option.ne_none_iff_exists'.mp known
    rw [content,statSize,found]
    rfl
  obtain ⟨_,shows⟩ | ⟨_,shows⟩ := start_shows different started
  · refine ⟨_,[content files settings.filenameOld],[content files settings.filename],[],by simpa using shows,rfl,?_,by simp⟩
    intro known
    rw [← size known]
    exact Int.natCast_nonneg _
  · refine ⟨_,[],[content files settings.filenameOld],[content files settings.filename],by simpa using shows,rfl,?_,by simp⟩
    intro known
    rw [← size known]
    simp

private theorem latest_output {settings : Settings} (different : settings.filename ≠ settings.filenameOld) {known : Prop}
    {before written : List Bytes} {opens : Bool} {s next : Logging} {entry : Bytes}
    (latest : Latest settings known before s written) (ok : s.output opens entry = .ok next) :
    Latest settings known before next (written ++ [entry]) := by
  obtain ⟨size,lost,older,recent,shows,whole,tracked,_⟩ := latest
  obtain ⟨large,after⟩ | ⟨small,after⟩ := output_shows different shows ok
  · refine ⟨_,lost ++ older,recent,[entry],by simpa using after,?_,?_,?_⟩
    · rw [← List.append_assoc,whole]
    · simp
    · intro _ front last same
      obtain ⟨_,equal⟩ := List.append_inj' same rfl
      cases equal
      have whole_entry : ([entry].flatten.length : Int) = entry.length := by simp
      omega
  · have longer : ((recent ++ [entry]).flatten.length : Int) = recent.flatten.length + entry.length := by simp
    refine ⟨_,lost,older,recent ++ [entry],by simpa using after,?_,?_,?_⟩
    · rw [← List.append_assoc,whole,List.append_assoc]
    · intro held
      have short := tracked held
      omega
    · intro held front last same
      obtain ⟨_,equal⟩ := List.append_inj' same rfl
      cases equal
      have short := tracked held
      omega

/-- Whatever has been logged: the two files hold the end of it, in order, without a gap and
with no entry cut in two, and the file that is written to exceeds its limit by one entry at most. -/
theorem log_holds_latest (settings : Settings) (different : settings.filename ≠ settings.filenameOld) (opens : Bool)
    (unset : Int) (files : Files) (s last : Logging) (started : Logging.start opens unset settings files = .ok s)
    (entries : List Entry) (ran : outputs s entries = .ok last) :
    ∃ lost older recent, content files settings.filenameOld :: content files settings.filename :: texts entries =
        lost ++ older ++ recent ∧
      content last.files settings.filenameOld = older.flatten ∧ content last.files settings.filename = recent.flatten ∧
      (files settings.filename ≠ none → ∀ front entry, entries = front ++ [entry] →
        (recent.flatten.length : Int) ≤ max settings.maxSize 0 + entry.bytes.length) := by
  have kept (s : Logging) (written : List Bytes) (opens : Bool) (entry : Bytes) (next : Logging)
      (latest : Latest settings (files settings.filename ≠ none)
        [content files settings.filenameOld,content files settings.filename] s written)
      (ok : s.output opens entry = .ok next) : Latest settings (files settings.filename ≠ none)
        [content files settings.filenameOld,content files settings.filename] next (written ++ [entry]) :=
    latest_output different latest ok
  obtain ⟨size,lost,older,recent,shows,whole,_,bound⟩ :=
    outputs_keep _ kept entries s last [] (latest_start different started) ran
  refine ⟨lost,older,recent,whole,shows.older,shows.current,?_⟩
  intro known front entry same
  apply bound known (texts front) entry.bytes
  simp [texts,same]

def usualSettings : Settings := ⟨0,1048576,text "/var/log/LMBd//LMBd.Log",text "/var/log/LMBd//LMBd.Log.old"⟩

def usualLog : Files := fun name => if name = text "/var/log/LMBd//LMBd.Log" then some (text "started\n") else none

/-- The log of the last time has been renamed, and the size is still its size. -/
def usualStart : Logging :=
  ⟨⟨usualSettings,true,8⟩,Function.update (renamed usualLog usualSettings) usualSettings.filename
    (some (content (renamed usualLog usualSettings) usualSettings.filename))⟩

def usualEntry : Entry := ⟨⟨2024,1,2,3,4,5,6⟩,text "LMBd",.eInfo,text "Starting",true⟩

example : usualEntry.bytes = text "2024-01-02 03:04:05.006  LMBd         INFO Starting\n" := by decide

theorem log_holds_latest_usual :
    ∃ lost older recent, content usualLog usualSettings.filenameOld :: content usualLog usualSettings.filename ::
        texts [usualEntry] = lost ++ older ++ recent ∧
      content (usualStart.append usualEntry.bytes).files usualSettings.filenameOld = older.flatten ∧
      content (usualStart.append usualEntry.bytes).files usualSettings.filename = recent.flatten ∧
      (usualLog usualSettings.filename ≠ none → ∀ front entry, [usualEntry] = front ++ [entry] →
        (recent.flatten.length : Int) ≤ max usualSettings.maxSize 0 + entry.bytes.length) :=
  log_holds_latest usualSettings (by decide) true 0 usualLog usualStart _ rfl [usualEntry] rfl

/-- The log from before the start is in the old file, or nothing of it is left. -/
def Prior (settings : Settings) (prior : Bytes) (s : Logging) (written : List Bytes) : Prop :=
  ((written = [] ∨ (prior.length + written.dropLast.flatten.length : Int) ≤ settings.maxSize) ∧
      Shows settings s (prior.length + written.flatten.length) prior written.flatten) ∨
    (written ≠ [] ∧ settings.maxSize < (prior.length + written.dropLast.flatten.length : Int) ∧
      ∃ size lost older recent, written = lost ++ older ++ recent ∧ Shows settings s size older.flatten recent.flatten)

private theorem prior_output {settings : Settings} (different : settings.filename ≠ settings.filenameOld) {prior : Bytes}
    {written : List Bytes} {opens : Bool} {s next : Logging} {entry : Bytes} (held : Prior settings prior s written)
    (ok : s.output opens entry = .ok next) : Prior settings prior next (written ++ [entry]) := by
  have front : (written ++ [entry]).dropLast = written := List.dropLast_concat
  have some_entry : written ++ [entry] ≠ [] := by simp
  have longer : ((written ++ [entry]).flatten.length : Int) = written.flatten.length + entry.length := by simp
  rw [Prior,front,longer]
  obtain ⟨_,shows⟩ | ⟨_,gone,size,lost,older,recent,whole,shows⟩ := held
  · obtain ⟨large,after⟩ | ⟨small,after⟩ := output_shows different shows ok
    · exact .inr ⟨some_entry,large,_,[],written,[entry],rfl,by simpa using after⟩
    · rw [Int.add_assoc] at after
      exact .inl ⟨.inr small,by simpa using after⟩
  · have fewer : written.dropLast.flatten.length ≤ written.flatten.length := (List.dropLast_sublist written).flatten.length_le
    have still_gone : settings.maxSize < (prior.length + written.flatten.length : Int) := by omega
    obtain ⟨_,after⟩ | ⟨_,after⟩ := output_shows different shows ok
    · exact .inr ⟨some_entry,still_gone,_,lost ++ older,recent,[entry],by rw [whole],by simpa using after⟩
    · refine .inr ⟨some_entry,still_gone,_,lost,older,recent ++ [entry],?_,by simpa using after⟩
      rw [whole,List.append_assoc]

private theorem prior_kept {settings : Settings} (different : settings.filename ≠ settings.filenameOld)
    (anew : settings.maxStartupSize = 0) {opens : Bool} {unset : Int} {files : Files} {prior : Bytes}
    (there : files settings.filename = some prior) (some_bytes : prior ≠ []) {s last : Logging}
    (started : Logging.start opens unset settings files = .ok s) {entries : List Entry} (ran : outputs s entries = .ok last) :
    (entries = [] ∨ (prior.length + (texts entries).dropLast.flatten.length : Int) ≤ settings.maxSize →
      content last.files settings.filenameOld = prior ∧ content last.files settings.filename = (texts entries).flatten) ∧
    (entries ≠ [] → settings.maxSize < (prior.length + (texts entries).dropLast.flatten.length : Int) →
      ∃ lost older recent, texts entries = lost ++ older ++ recent ∧
        content last.files settings.filenameOld = older.flatten ∧ content last.files settings.filename = recent.flatten) := by
  have size : statSize unset files settings.filename = prior.length := by rw [statSize,there]
  have same : content files settings.filename = prior := by rw [content,there]; rfl
  have positive := List.length_pos_iff.mpr some_bytes
  have begun : Prior settings prior s [] := by
    obtain ⟨_,shows⟩ | ⟨empty,_⟩ := start_shows different started
    · rw [size,same] at shows
      exact .inl ⟨.inl rfl,by simpa using shows⟩
    · omega
  have kept (s : Logging) (written : List Bytes) (opens : Bool) (entry : Bytes) (next : Logging)
      (held : Prior settings prior s written) (ok : s.output opens entry = .ok next) :
      Prior settings prior next (written ++ [entry]) := prior_output different held ok
  have nothing : texts entries = [] ↔ entries = [] := List.map_eq_nil_iff
  obtain ⟨room,shows⟩ | ⟨some_entry,gone,_,lost,older,recent,whole,shows⟩ := outputs_keep _ kept entries s last [] begun ran
  · refine ⟨fun _ => ⟨shows.older,shows.current⟩,?_⟩
    intro some_entry full
    obtain none | fits := room
    · exact absurd (nothing.mp none) some_entry
    · exact absurd fits (Int.not_le.mpr full)
  · refine ⟨?_,fun _ _ => ⟨lost,older,recent,whole,shows.older,shows.current⟩⟩
    intro room
    obtain none | fits := room
    · exact absurd (nothing.mpr none) some_entry
    · exact absurd fits (Int.not_le.mpr gone)

/-- The log from before the start is kept in the old file as long as it and all that has been
logged but the last entry have room in one file. After that nothing of it is left: of a log
that is longer than that at the start, after the first entry. -/
theorem prior_log_kept (values : Translator) (system : FileSystem) (file : Option Tree) (ctx loaded : LMBCTX) (level : Level)
    (ok : load values system file ctx = .ok (loaded,level)) (clean : 0 ∉ loaded.logpath) (output : LogOutput)
    (configured : loaded.configList.getLast? = some output) (opens : Bool) (unset : Int) (files : Files) (prior : Bytes)
    (there : files loaded.logpath = some prior) (some_bytes : prior ≠ []) (s last : Logging)
    (started : Logging.start opens unset (Settings.ofConfig output) files = .ok s) (entries : List Entry)
    (ran : outputs s entries = .ok last) :
    (entries = [] ∨ prior.length + (texts entries).dropLast.flatten.length ≤ min loaded.maxlogfilesize.toNat (2^63 - 1) →
      content last.files (loaded.logpath ++ text ".old") = prior ∧
        content last.files loaded.logpath = (texts entries).flatten) ∧
    (entries ≠ [] → min loaded.maxlogfilesize.toNat (2^63 - 1) < prior.length + (texts entries).dropLast.flatten.length →
      ∃ lost older recent, texts entries = lost ++ older ++ recent ∧
        content last.files (loaded.logpath ++ text ".old") = older.flatten ∧
        content last.files loaded.logpath = recent.flatten) := by
  have settings := loaded_settings ok configured
  have clean_old : 0 ∉ loaded.logpath ++ text ".old" := by
    rw [List.mem_append]
    exact not_or.mpr ⟨clean,by decide⟩
  rw [cString_clean _ clean,cString_clean _ clean_old] at settings
  rw [settings] at started
  have different : loaded.logpath ≠ loaded.logpath ++ text ".old" := by
    intro same
    have longer := congrArg List.length same
    simp [text] at longer
  obtain ⟨keeps,forgets⟩ := prior_kept different rfl there some_bytes started ran
  refine ⟨fun room => keeps (room.imp id fun fits => ?_),fun some_entry full => forgets some_entry ?_⟩
  · dsimp only
    omega
  · dsimp only
    omega

/-- Every value of the configuration file is left out. -/
def noValues : Tree := fun _ => none

def usualContext : LMBCTX :=
  loadStartup noValues (loadLogFile decimalValues noValues
    {loadAccess noValues (mainDefaults false) with monitorpath := text "/var/spool/LMBd",logpath := text "/var/log/LMBd//LMBd.Log"})

def usualOutput : LogOutput :=
  ⟨text "OutputFile",[(text "max_size",text "1048576"),(text "max_startup_size",text "0"),
    (text "filename_old",text "/var/log/LMBd//LMBd.Log.old"),(text "filename",text "/var/log/LMBd//LMBd.Log")]⟩

private theorem usual_loaded :
    load decimalValues usualFiles (some noValues) (mainDefaults false) = .ok (usualContext,.eCritic) := by
  rfl

private theorem usual_started : Logging.start true 0 (Settings.ofConfig usualOutput) usualLog = .ok usualStart := by
  rfl

theorem prior_log_kept_usual :
    ([usualEntry] = [] ∨
        (text "started\n").length + (texts [usualEntry]).dropLast.flatten.length ≤
          min usualContext.maxlogfilesize.toNat (2^63 - 1) →
      content (usualStart.append usualEntry.bytes).files (usualContext.logpath ++ text ".old") = text "started\n" ∧
        content (usualStart.append usualEntry.bytes).files usualContext.logpath = (texts [usualEntry]).flatten) ∧
    ([usualEntry] ≠ [] → min usualContext.maxlogfilesize.toNat (2^63 - 1) <
        (text "started\n").length + (texts [usualEntry]).dropLast.flatten.length →
      ∃ lost older recent, texts [usualEntry] = lost ++ older ++ recent ∧
        content (usualStart.append usualEntry.bytes).files (usualContext.logpath ++ text ".old") = older.flatten ∧
        content (usualStart.append usualEntry.bytes).files usualContext.logpath = recent.flatten) :=
  prior_log_kept decimalValues usualFiles (some noValues) (mainDefaults false) usualContext .eCritic usual_loaded (by decide)
    usualOutput rfl true 0 usualLog (text "started\n") rfl (by decide) usualStart _ usual_started [usualEntry] rfl

end LEDMessageBoard.LogFile
