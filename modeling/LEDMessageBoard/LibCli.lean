import LEDMessageBoard.Cli

/-! How `libcli` turns a line of a session into a call of a handler: the words of the
line, the command they name, and what stays for `argv` and `argc`. -/
namespace LEDMessageBoard.LibCli
open Config Cli

inductive Builtin where
  | help
  | quit
  | exit
  | history
  | enable
  | disable
  | configureTerminal
deriving DecidableEq, Repr

inductive Callback where
  | builtin (builtin : Builtin)
  | handler (command : Command)
deriving DecidableEq, Repr

structure CliCommand where
  command : Bytes
  callback : Option Callback
  privilege : Int
  mode : Int
  children : List CliCommand

structure CliDef where
  privilege : Int
  mode : Int
deriving DecidableEq, Repr

def unprivileged : Int := 0
def privileged : Int := 15
def modeAny : Int := -1
def modeExec : Int := 0
def modeConfig : Int := 1
def maxLineWords : Nat := 128

/-- What the search depends on besides the session. An empty word is looked at one byte
before its start; the filters of a line are set up by code that may refuse them. -/
structure Surroundings where
  byteBefore : UInt8
  filterInit : List Bytes → Bool

/-- The loop of `cli_parse_line` from one position. `room` is the number of words that
still fit, `word` what has been passed since `word_start`. -/
def parseFrom (room : Nat) (inquote : Option UInt8) (word : Option Bytes) : Bytes → List Bytes
  | [] => if room = 0 then [] else word.toList
  | c :: rest =>
    if room = 0 then []
    else if inquote = some c then word.toList ++ parseFrom (room - word.toList.length) none none rest
    else if inquote = none ∧ word.isSome ∧ isSpace c then word.toList ++ parseFrom (room - 1) none none rest
    else if inquote = none ∧ word.isSome ∧ c = 0x7C then
      -- the word ends here; the `|` is read again as a word of its own, if it fits
      word.toList ++ if room - 1 = 0 then [] else [0x7C] :: parseFrom (room - 2) none none rest
    else if c = 0x22 ∨ c = 0x27 then parseFrom room (some c) (some []) rest
    else match word with
      | some passed => parseFrom room inquote (some (passed ++ [c])) rest
      | none =>
        if c = 0x7C then [0x7C] :: parseFrom (room - 1) inquote none rest
        else if isSpace c then parseFrom room inquote none rest
        else parseFrom room inquote (some [c]) rest

def parseLine (line : Bytes) : List Bytes :=
  let p := line.dropWhile isSpace
  -- `word_start` is set here, whatever the first byte is
  parseFrom (maxLineWords - 1) none (if p = [] then none else some []) p

def toLower (byte : UInt8) : UInt8 := if 0x41 ≤ byte ∧ byte ≤ 0x5A then byte + 32 else byte

/-- `strncasecmp(a, b, n) == 0` of two strings without their NUL. -/
def sameCase (a b : Bytes) (n : Nat) : Bool := (a.take n).map toLower = (b.take n).map toLower

def CliDef.sees (cli : CliDef) (c : CliCommand) : Bool :=
  (c.mode = modeAny ∨ c.mode = cli.mode) ∧ c.privilege ≤ cli.privilege

def commonLength : Bytes → Bytes → Nat
  | a :: as, b :: bs => if a = b then commonLength as bs + 1 else 1
  | _, _ => 1

/-- `unique_len` of the command at an index, as `cli_build_shortest` leaves it. -/
def uniqueLen (cli : CliDef) (commands : List CliCommand) (index : Nat) (c : CliCommand) : Nat :=
  if cli.sees c then
    ((commands.eraseIdx index).filter fun p => cli.sees p).foldl (fun len p => max len (commonLength c.command p.command)) 1
  else c.command.length

def CliDef.fits (cli : CliDef) (commands : List CliCommand) (word : Bytes) (index : Nat) (c : CliCommand) : Bool :=
  c.privilege ≤ cli.privilege ∧ sameCase c.command word (uniqueLen cli commands index c) ∧
    sameCase c.command word word.length

def selectFrom (cli : CliDef) (commands : List CliCommand) (word : Bytes) (againConfig againAny : Option CliCommand) :
    List (CliCommand × Nat) → Option (CliCommand × CliDef)
  | [] =>
    match againConfig with
    | some c => some (c,{cli with mode := modeConfig})
    | none => againAny.map fun c => (c,cli)
  | (c,index) :: rest =>
    if ¬cli.fits commands word index c then selectFrom cli commands word againConfig againAny rest
    else if c.mode = cli.mode ∨ c.mode = modeAny ∧ againAny.isSome then some (c,cli)
    else if cli.mode > modeConfig ∧ c.mode = modeConfig then selectFrom cli commands word (some c) againAny rest
    else if c.mode = modeAny then selectFrom cli commands word againConfig (some c) rest
    else selectFrom cli commands word againConfig againAny rest

def select (cli : CliDef) (commands : List CliCommand) (word : Bytes) : Option (CliCommand × CliDef) :=
  selectFrom cli commands word none none commands.zipIdx

def lastByte (around : Surroundings) (word : Bytes) : UInt8 := word.getLast?.getD around.byteBefore

def filterNames : List Bytes :=
  [text "include",text "exclude",text "grep",text "egrep",text "begin",text "between",text "count"]

/-- One round of the filter loop, for the words between two `|`: is the filter set up? -/
def filterAccepted (around : Surroundings) (argv : List Bytes) : Bool :=
  match argv with
  | [] => false
  | name :: rest =>
    if lastByte around ((name :: rest).getLastD []) = 0x3F then false
    else if name.head? = some 0x62 ∧ name.length < 3 then false
    else if filterNames.any (fun known => name.isPrefixOf known) then around.filterInit (name :: rest)
    else false

def isFilter (word : Bytes) : Bool := word.head? = some 0x7C

def filterArgs : List Bytes → List (List Bytes)
  | [] => []
  | word :: rest =>
    if isFilter word then rest.takeWhile (fun other => !isFilter other) :: filterArgs rest else filterArgs rest

/-- What a search comes to. No callback returns `CLI_ERROR_ARG`, so a call ends it. -/
inductive Found where
  | ok
  | error
  | errorArg
  | call (callback : Callback) (args : Args)

/-- `CORRECT_CHECKS`: the filters of the line, then the callback. -/
def callback (around : Surroundings) (filters : List (List Bytes)) (callback : Callback) (args : Args) : Found :=
  if filters.all (filterAccepted around) then .call callback args else .error

def handed (name : Bytes) (rest : List Bytes) (argc : Nat) : Args := ⟨name,rest.take argc,rest.drop argc⟩

/-- `cli_find_command`, with the words from `start_word` on; `counted` is the number of
them before the first filter, `path` the name of the parent. -/
def findCommand (around : Surroundings) (filters : List (List Bytes)) (cli : CliDef) (commands : List CliCommand)
    (path : Bytes) (counted : Nat) : List Bytes → Found
  | [] => .error
  | word :: rest =>
    if lastByte around word = 0x3F then .ok
    else
      match select cli commands word with
      | none => .errorArg
      | some (c,cli) =>
        let name := if path = [] then c.command else path ++ [0x20] ++ c.command
        let args := handed name rest (counted - 1)
        match c.children with
        | [] =>
          match c.callback with
          | some found => callback around filters found args
          | none => .error
        | child :: children =>
          if counted = 1 then
            match c.callback with
            | some found => callback around filters found args
            | none => .error
          else
            match findCommand around filters cli (child :: children) name (counted - 1) rest with
            | .errorArg =>
              match c.callback with
              | some found => callback around filters found args
              | none => .errorArg
            | result => result

def countedWords (words : List Bytes) : Nat :=
  let first := words.findIdx isFilter
  -- an index 0 ends the array of filters
  if first = 0 then words.length else first

def lineFilters (words : List Bytes) : List (List Bytes) :=
  if words.findIdx isFilter = 0 then [] else filterArgs words

def runCommand (around : Surroundings) (cli : CliDef) (commands : List CliCommand) (line : Bytes) : Found :=
  let command := (cString line).dropWhile isSpace
  if command = [] then .ok
  else
    let words := parseLine command
    if words = [] then .error
    else findCommand around (lineFilters words) cli commands [] (countedWords words) words

def leaf (name : String) (callback : Callback) (privilege mode : Int) : CliCommand :=
  ⟨text name,some callback,privilege,mode,[]⟩

/-- The commands of a session: those of `cli_init`, then those of `Startcliloop`. -/
def registered : List CliCommand :=
  [leaf "help" (.builtin .help) unprivileged modeAny,
    leaf "quit" (.builtin .quit) unprivileged modeAny,
    leaf "logout" (.builtin .quit) unprivileged modeAny,
    leaf "exit" (.builtin .exit) unprivileged modeAny,
    leaf "history" (.builtin .history) unprivileged modeAny,
    leaf "enable" (.builtin .enable) unprivileged modeExec,
    leaf "disable" (.builtin .disable) privileged modeExec,
    ⟨text "configure",none,privileged,modeExec,[leaf "terminal" (.builtin .configureTerminal) privileged modeExec]⟩,
    ⟨text "set",some (.handler .set),privileged,modeExec,
      [leaf "port" (.handler .setPort) privileged modeExec,
        leaf "startupmsg" (.handler .setStartupmsg) privileged modeExec,
        leaf "logfilepath" (.handler .setLogfilepath) privileged modeExec,
        leaf "monitorpath" (.handler .setMonitorpath) privileged modeExec]⟩,
    leaf "save" (.handler .save) privileged modeExec,
    ⟨text "show",none,unprivileged,modeExec,
      [leaf "ports" (.handler .showPorts) unprivileged modeExec,
        leaf "port" (.handler .showPort) unprivileged modeExec,
        leaf "messages" (.handler .showMessages) unprivileged modeExec,
        leaf "startupmsg" (.handler .showStartupmsg) unprivileged modeExec,
        leaf "logfiledir" (.handler .showLogfiledir) unprivileged modeExec,
        leaf "monitorpath" (.handler .showMonitorpath) unprivileged modeExec]⟩,
    leaf "message" (.handler .message) unprivileged modeExec,
    leaf "clear" (.handler .clear) unprivileged modeExec]

theorem parseFrom_length (room : Nat) (inquote : Option UInt8) (word : Option Bytes) (line : Bytes) :
    (parseFrom room inquote word line).length ≤ room := by
  have one (word : Option Bytes) : word.toList.length ≤ 1 := by cases word <;> simp
  fun_induction parseFrom room inquote word line with
  | case1 => exact Nat.zero_le _
  | case2 room _ word some_room =>
    have bound := one word
    omega
  | case3 => exact Nat.zero_le _
  | case4 room word c rest some_room ih =>
    have bound := one word
    rw [List.length_append]
    omega
  | case5 room inquote word c rest some_room _ _ ih =>
    have bound := one word
    rw [List.length_append]
    omega
  | case6 room inquote word c rest some_room _ _ _ ih =>
    have bound := one word
    rw [List.length_append]
    split
    next => simp only [List.length_nil]; omega
    next => rw [List.length_cons]; omega
  | case7 room inquote word c rest some_room _ _ _ _ ih => exact ih
  | case8 room inquote c rest some_room _ _ passed _ _ ih => exact ih
  | case9 room inquote rest some_room _ _ _ _ ih =>
    rw [List.length_cons]
    omega
  | case10 room inquote c rest some_room _ _ _ _ _ _ ih => exact ih
  | case11 room inquote c rest some_room _ _ _ _ _ _ ih => exact ih

/-- The array of 128 entries always ends with a NULL behind the words. -/
theorem parseLine_length (line : Bytes) : (parseLine line).length < maxLineWords :=
  Nat.lt_succ_of_le (parseFrom_length _ _ _ _)

private theorem countedWords_bounds (words : List Bytes) (nonempty : words ≠ []) :
    1 ≤ countedWords words ∧ countedWords words ≤ words.length := by
  have positive := List.length_pos_iff.mpr nonempty
  have inside : words.findIdx isFilter ≤ words.length := List.findIdx_le_length
  unfold countedWords
  dsimp only
  split <;> omega

private theorem callback_args (around : Surroundings) (filters : List (List Bytes)) (found asked : Callback) (args given : Args)
    (called : callback around filters asked given = .call found args) : args = given := by
  unfold callback at called
  split at called
  next => exact (Found.call.inj called).2.symm
  next => cases called

/-- A call hands over the words behind this one, or comes from the search among children. -/
theorem findCommand_cases (around : Surroundings) (filters : List (List Bytes)) (cli : CliDef) (commands : List CliCommand)
    (path : Bytes) (counted : Nat) (word : Bytes) (rest : List Bytes) (found : Callback) (args : Args)
    (called : findCommand around filters cli commands path counted (word :: rest) = .call found args) :
    (∃ name, args = handed name rest (counted - 1)) ∨
      ∃ cli children name, counted ≠ 1 ∧ findCommand around filters cli children name (counted - 1) rest = .call found args := by
  have settled (asked : Option Callback) (other : Found) (name : Bytes)
      (called : asked.elim other (fun asked => callback around filters asked (handed name rest (counted - 1))) =
        .call found args) (silent : other ≠ .call found args) : ∃ name, args = handed name rest (counted - 1) := by
    cases asked with
    | none => exact absurd called silent
    | some asked => exact ⟨name,callback_args _ _ _ _ _ _ called⟩
  rw [findCommand] at called
  split at called
  next => cases called
  next =>
    split at called
    next => cases called
    next c cli entered =>
      dsimp only at called
      split at called
      next => exact .inl (settled c.callback .error _ (by rw [← called]; cases c.callback <;> rfl) nofun)
      next child children _ =>
        split at called
        next => exact .inl (settled c.callback .error _ (by rw [← called]; cases c.callback <;> rfl) nofun)
        next more =>
          split at called
          next => exact .inl (settled c.callback .errorArg _ (by rw [← called]; cases c.callback <;> rfl) nofun)
          next => exact .inr ⟨_,_,_,more,called⟩

private theorem findCommand_args (around : Surroundings) (filters : List (List Bytes)) (cli : CliDef)
    (commands : List CliCommand) (path : Bytes) (counted : Nat) (ahead : List Bytes) (low : 1 ≤ counted)
    (high : counted ≤ ahead.length) (found : Callback) (args : Args)
    (called : findCommand around filters cli commands path counted ahead = .call found args) :
    ∃ name, name ≠ [] ∧ ahead = name ++ (args.words ++ args.filters) ∧ name.length + args.argc = counted := by
  induction ahead generalizing cli commands path counted with
  | nil => cases called
  | cons word rest ih =>
    rw [List.length_cons] at high
    rcases findCommand_cases around filters cli commands path counted word rest found args called with
      ⟨name,rfl⟩ | ⟨cli,children,name,more,called⟩
    · refine ⟨[word],by simp,?_,?_⟩
      · rw [handed,List.take_append_drop]
        rfl
      · simp only [handed,Args.argc,List.length_take,List.length_singleton]
        omega
    · obtain ⟨names,_,same,length⟩ := ih _ _ _ _ (by omega) (by omega) called
      refine ⟨word :: names,by simp,by rw [same]; rfl,?_⟩
      rw [List.length_cons]
      omega

/-- `argc` counts the words of the line between the name and the first filter. -/
theorem runCommand_args (around : Surroundings) (cli : CliDef) (commands : List CliCommand) (line : Bytes)
    (found : Callback) (args : Args) (called : runCommand around cli commands line = .call found args) :
    ∃ name, name ≠ [] ∧ parseLine ((cString line).dropWhile isSpace) = name ++ (args.words ++ args.filters) ∧
      name.length + args.argc = countedWords (parseLine ((cString line).dropWhile isSpace)) := by
  unfold runCommand at called
  dsimp only at called
  split at called
  next => cases called
  next =>
    split at called
    next => cases called
    next some_word =>
      obtain ⟨low,high⟩ := countedWords_bounds _ some_word
      exact findCommand_args around _ cli commands [] _ _ low high found args called

end LEDMessageBoard.LibCli
