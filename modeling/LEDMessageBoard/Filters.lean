import LEDMessageBoard.LibCli
import LEDMessageBoard.General.Transducer
import Mathlib.Data.List.Infix

/-! The output filters of a line (`| include …`, `| count` and so on): how `libcli` sets
them up, and what they leave of the output of a handler. -/
namespace LEDMessageBoard.Filters
open General General.Transducer Cli LibCli

/-- `regcomp` and `regexec`, for a pattern and the flags REG_EXTENDED and REG_ICASE. -/
structure Regex where
  compiles : Bytes → Bool → Bool → Bool
  finds : Bytes → Bool → Bool → Bytes → Bool

inductive Filter where
  /-- include and exclude -/
  | strings (string : Bytes) (invert : Bool)
  /-- grep and egrep -/
  | regex (pattern : Bytes) (extended icase invert : Bool)
  /-- begin and between -/
  | range (start : Bytes) (stop : Option Bytes) (matched : Bool)
  /-- The `int` of the source, which is not taken to overflow. -/
  | count (lines : Nat)
deriving DecidableEq, Repr

/-- `strstr(string, part) != NULL` -/
def contains (part string : Bytes) : Bool := part <:+: string

def joinWords (words : List Bytes) : Bytes := [0x20].intercalate words

/-- The options of grep, which leave it at least one word: `-v`, `-i` and the last one, `-e`. -/
def grepOptions (icase invert : Bool) : List Bytes → Bool × Bool × List Bytes
  | option :: word :: rest =>
    let p := option.drop 1
    if option.head? = some 0x2D ∧ p ≠ [] ∧ p.all (fun c => c = 0x76 ∨ c = 0x69 ∨ c = 0x65) then
      let icase := icase || p.contains 0x69
      let invert := invert || p.contains 0x76
      if p.contains 0x65 then (icase,invert,word :: rest) else grepOptions icase invert (word :: rest)
    else (icase,invert,option :: word :: rest)
  | words => (icase,invert,words)

def matchFilterInit (regex : Regex) (name : Bytes) (rest : List Bytes) : Option Filter :=
  if rest = [] then none
  else if name.head? = some 0x69 ∨ name.head? = some 0x65 ∧ name[1]? = some 0x78 then
    some (.strings (joinWords rest) (name.head? = some 0x65))
  else
    let extended := name.head? = some 0x65
    let (icase,invert,words) := grepOptions false false rest
    if regex.compiles (joinWords words) extended icase then some (.regex (joinWords words) extended icase invert)
    else none

def rangeFilterInit (name : Bytes) (rest : List Bytes) : Option Filter :=
  if name.take 3 = text "bet" then
    match rest with
    | start :: word :: words => some (.range start (some (joinWords (word :: words))) false)
    | _ => none
  else if rest = [] then none
  else some (.range (joinWords rest) none false)

def countFilterInit (rest : List Bytes) : Option Filter := if rest = [] then some (.count 0) else none

/-- The choice among the filters, by what their names begin with. -/
def filterInit (regex : Regex) (name : Bytes) (rest : List Bytes) : Option Filter :=
  if [text "include",text "exclude",text "grep",text "egrep"].any (fun known => name.isPrefixOf known) then
    matchFilterInit regex name rest
  else if [text "begin",text "between"].any (fun known => name.isPrefixOf known) then rangeFilterInit name rest
  else if name.isPrefixOf (text "count") then countFilterInit rest
  else none

/-- What the search for a command depends on, with the code of the filters put in. -/
def surroundings (byteBefore : UInt8) (regex : Regex) : Surroundings where
  byteBefore := byteBefore
  filterInit argv :=
    match argv with
    | [] => false
    | name :: rest => (filterInit regex name rest).isSome

/-- How the checks of a line end: with a `return` that leaves `cli->filters` as they are
then, with a filter that is refused, or with the callback. -/
inductive Setup where
  | returned (left : List Filter)
  | refused (cleaned : List Filter)
  | ready (chain : List Filter)
deriving DecidableEq, Repr

/-- `CORRECT_CHECKS`, the loop over the filters of a line. `left` is what `cli->filters`
held before, `made` what the loop has put there. -/
def setUp (byteBefore : UInt8) (regex : Regex) (left : List Filter) (made : Option (List Filter)) :
    List (List Bytes) → Setup
  | [] => .ready (made.getD left)
  | [] :: _ => .returned (made.getD left)
  | (name :: words) :: rest =>
    if lastByte (surroundings byteBefore regex) ((name :: words).getLastD []) = 0x3F then .returned (made.getD left)
    else if name.head? = some 0x62 ∧ name.length < 3 then .returned (made.getD left)
    else
      match filterInit regex name words with
      | some filter => setUp byteBefore regex left (some (made.getD [] ++ [filter])) rest
      | none => .refused (made.getD [])

/-- A filter of `cli->filters` called with a line: its state afterwards, and `CLI_OK`. -/
def Filter.step (regex : Regex) (filter : Filter) (line : Bytes) : Filter × Bool :=
  match filter with
  | .strings string invert => (filter,contains string line != invert)
  | .regex pattern extended icase invert => (filter,regex.finds pattern extended icase line != invert)
  | .range start stop matched =>
    if matched || contains start line then (.range start stop !(stop.any fun stop => contains stop line),true)
    else (.range start stop false,false)
  | .count lines => (.count (if line.all isSpace then lines else lines + 1),false)

/-- The last call of a filter, with NULL: `cli_count_filter` prints its number. -/
def Filter.finish : Filter → List Bytes
  | .count lines => [shownInt lines]
  | _ => []

/-- The lines of one formatted text, as `_print` takes them apart. -/
def splitLines (output : Bytes) : List Bytes := output.splitOn 0x0A

/-- What the client is sent of the texts that a callback prints. -/
def shown (regex : Regex) (chain : List Filter) (printed : List Bytes) : List Bytes :=
  let (last,kept) := emit (sieve (row (Filter.step regex))) chain (printed.flatMap splitLines)
  kept ++ last.flatMap Filter.finish

private theorem filterInit_known (regex : Regex) (name : Bytes) (rest : List Bytes) (filter : Filter)
    (made : filterInit regex name rest = some filter) : filterNames.any (fun known => name.isPrefixOf known) = true := by
  have parts : filterNames = [text "include",text "exclude",text "grep",text "egrep"] ++
      ([text "begin",text "between"] ++ [text "count"]) := rfl
  rw [parts,List.any_append,List.any_append]
  unfold filterInit at made
  split at made
  next strings => rw [strings,Bool.true_or]
  next =>
    split at made
    next ranges => rw [ranges,Bool.true_or,Bool.or_true]
    next =>
      split at made
      next count => simp only [List.any_cons,List.any_nil,count,Bool.true_or,Bool.or_true]
      next => cases made

/-- The callback of a line is called exactly if each of its filters is accepted. -/
theorem setUp_ready (byteBefore : UInt8) (regex : Regex) (left : List Filter) (filters : List (List Bytes))
    (made : Option (List Filter)) :
    (∃ chain, setUp byteBefore regex left made filters = .ready chain) ↔
      filters.all (filterAccepted (surroundings byteBefore regex)) = true := by
  induction filters generalizing made with
  | nil => exact ⟨fun _ => rfl,fun _ => ⟨_,rfl⟩⟩
  | cons argv rest ih =>
    rw [List.all_cons]
    cases argv with
    | nil => simp [setUp,filterAccepted]
    | cons name words =>
      rw [setUp,filterAccepted]
      split
      next => simp
      next =>
        split
        next => simp
        next =>
          cases initiated : filterInit regex name words with
          | none => simp [surroundings,initiated]
          | some filter =>
            dsimp only
            rw [ih,filterInit_known regex name words filter initiated]
            simp [surroundings,initiated]

/-- What a filter leaves of a whole output. -/
def Filter.stage (regex : Regex) (filter : Filter) (lines : List Bytes) : List Bytes :=
  match filter with
  | .strings string invert => lines.filter fun line => contains string line != invert
  | .regex pattern extended icase invert => lines.filter fun line => regex.finds pattern extended icase line != invert
  | .range start none matched => if matched then lines else lines.dropWhile fun line => !contains start line
  | .range start (some stop) matched => (emit (sieve (sections (contains start) (contains stop))) matched lines).2
  | .count _ => []

def Filter.total (filter : Filter) (lines : List Bytes) : List Bytes :=
  match filter with
  | .count before => [shownInt ((before + (lines.filter fun line => !line.all isSpace).length : Nat))]
  | _ => []

/-- The filters one after the other, each on the whole output of the one before it, and
the numbers that are printed in the end. -/
def pipeline (regex : Regex) : List Filter → List Bytes → List Bytes × List Bytes
  | [], lines => (lines,[])
  | filter :: rest, lines =>
    ((pipeline regex rest (filter.stage regex lines)).1,
      filter.total lines ++ (pipeline regex rest (filter.stage regex lines)).2)

private theorem range_emit (regex : Regex) (start : Bytes) (stop : Option Bytes) (matched : Bool) (lines : List Bytes) :
    emit (sieve (Filter.step regex)) (.range start stop matched) lines =
      (.range start stop (emit (sieve (sections (contains start) fun line => stop.any (contains · line))) matched lines).1,
        (emit (sieve (sections (contains start) fun line => stop.any (contains · line))) matched lines).2) := by
  induction lines generalizing matched with
  | nil => rfl
  | cons line rest ih =>
    have stepped : Filter.step regex (.range start stop matched) line =
        (.range start stop (sections (contains start) (fun line => stop.any (contains · line)) matched line).1,
          (sections (contains start) (fun line => stop.any (contains · line)) matched line).2) := by
      unfold Filter.step sections
      dsimp only
      split <;> rfl
    rw [emit_cons,emit_cons,sieve,stepped]
    dsimp only
    rw [ih]
    rfl

private theorem count_emit (regex : Regex) (before : Nat) (lines : List Bytes) :
    emit (sieve (Filter.step regex)) (.count before) lines =
      (.count (before + (lines.filter fun line => !line.all isSpace).length),[]) := by
  induction lines generalizing before with
  | nil => rfl
  | cons line rest ih =>
    rw [emit_cons,sieve,Filter.step]
    dsimp only
    rw [ih,List.filter_cons]
    cases blank : line.all isSpace with
    | true => simp
    | false => simp; omega

private theorem filter_emit (regex : Regex) (filter : Filter) (lines : List Bytes) :
    (emit (sieve (Filter.step regex)) filter lines).2 = filter.stage regex lines ∧
      (emit (sieve (Filter.step regex)) filter lines).1.finish = filter.total lines := by
  cases filter with
  | strings string invert =>
    rw [emit_sieve_pure (Filter.step regex) _ (fun line => contains string line != invert) fun _ => rfl]
    exact ⟨rfl,rfl⟩
  | regex pattern extended icase invert =>
    rw [emit_sieve_pure (Filter.step regex) _ (fun line => regex.finds pattern extended icase line != invert) fun _ => rfl]
    exact ⟨rfl,rfl⟩
  | range start stop matched =>
    rw [range_emit]
    refine ⟨?_,rfl⟩
    cases stop with
    | none => exact emit_sections_open (contains start) matched lines
    | some stop => rfl
  | count before =>
    rw [count_emit]
    exact ⟨rfl,rfl⟩

/-- Filtering each line as it is printed is the same as running the filters over the whole
output, one after the other. The numbers of the counts come last, past the other filters. -/
theorem shown_pipeline (regex : Regex) (chain : List Filter) (printed : List Bytes) :
    shown regex chain printed =
      (pipeline regex chain (printed.flatMap splitLines)).1 ++ (pipeline regex chain (printed.flatMap splitLines)).2 := by
  have whole (chain : List Filter) (lines : List Bytes) :
      (emit (sieve (row (Filter.step regex))) chain lines).2 = (pipeline regex chain lines).1 ∧
        (emit (sieve (row (Filter.step regex))) chain lines).1.flatMap Filter.finish = (pipeline regex chain lines).2 := by
    induction chain generalizing lines with
    | nil =>
      rw [emit_row_nil]
      exact ⟨rfl,rfl⟩
    | cons filter rest ih =>
      obtain ⟨stage,total⟩ := filter_emit regex filter lines
      obtain ⟨later,totals⟩ := ih (filter.stage regex lines)
      rw [emit_row_cons,stage]
      exact ⟨later,by rw [List.flatMap_cons,total,totals]; rfl⟩
  unfold shown
  dsimp only
  rw [(whole chain _).1,(whole chain _).2]

open Classical in
/-- `between` shows the sections from a line with the first text to the next line with the
second, both of them included; one line can be both. -/
theorem between_shows_sections (regex : Regex) (start stop : Bytes) (printed : List Bytes) :
    shown regex [.range start (some stop) false] printed =
      ((printed.flatMap splitLines).zipIdx.filter fun entry =>
        decide (Within (contains start) (contains stop) (printed.flatMap splitLines) entry.2)).map Prod.fst := by
  have sections := emit_sections (contains start) (contains stop) (printed.flatMap splitLines)
  unfold shown
  dsimp only
  rw [emit_row_cons,range_emit,emit_row_nil]
  simp only [Option.any_some]
  rw [sections]
  exact List.append_nil _

end LEDMessageBoard.Filters
