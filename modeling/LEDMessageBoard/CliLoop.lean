import LEDMessageBoard.Completion
import LEDMessageBoard.Filters
import LEDMessageBoard.LineEditor

/-! A session of `cli_loop`: the login, the keys of a line, and what a line that is entered
does. The handlers themselves run outside of it. -/
namespace LEDMessageBoard.CliLoop
open Config Cli LibCli Telnet LineEditor Completion Filters

/-- `cli->state`. No command uses `cli_request`, so there is no STATE_REQUEST. -/
inductive State where
  | login
  | password (username : Bytes)
  | normal
  | enablePassword
  | enable
deriving DecidableEq, Repr

/-- What a session is started with, and what it meets outside of `libcli`: `crypt`, the byte
before an empty word, and the regular expressions. -/
structure Access where
  username : Bytes
  password : Bytes
  enablepass : Bytes
  crypt : Bytes → Bytes → Option Bytes
  byteBefore : UInt8
  regex : Regex

structure Session where
  cli : CliDef
  state : State
  history : List Bytes
  filters : List Filter
  decoder : Decoder
  editor : Editor

def fresh : Session := ⟨⟨unprivileged,modeExec⟩,.login,[],[],.rest,.fresh⟩

/-- A call of a handler, with the filters that its output goes through. -/
structure Call where
  command : Command
  args : Args
  chain : List Filter

/-- What comes of a byte, without what a command prints. `none` is the end of the loop, and
`prompt` follows the output of the command. -/
structure Turn where
  session : Option Session
  sent : Bytes
  call : Option Call
  prompt : Bytes

/-- `pass_matches`. There is no result where `crypt` has none. -/
def passMatches (crypt : Bytes → Bytes → Option Bytes) (pass attempt : Bytes) : Option Bool :=
  let des := sameCase pass (text "\x7bcrypt\x7d") 7
  let pass := if des then pass.drop 7 else pass
  if des ∨ pass.take 3 = text "$1$" then (crypt attempt pass).map fun crypted => pass = crypted
  else some (pass = attempt)

/-- The loop over `cli->users`, which has one user. -/
def Access.allows (access : Access) (username password : Bytes) : Option Bool :=
  if access.username = username then passMatches access.crypt access.password password else some false

/-- `strcasecmp(a, b) == 0` -/
def sameText (a b : Bytes) : Bool := a.map toLower = b.map toLower

/-- `cli_add_history`. A line is compared with the one before it only while there is room. -/
def addHistory (history : List Bytes) (cmd : Bytes) : List Bytes :=
  if history.length < maxHistory then
    if history.getLast?.any fun last => sameText last cmd then history else history ++ [cmd]
  else history.drop 1 ++ [cmd]

namespace Session

def hidden (s : Session) : Bool :=
  match s.state with
  | .password _ => true
  | .enablePassword => true
  | _ => false

def showPrompt (s : Session) : Bytes :=
  text "LMB" ++ (if s.cli.mode = modeExec then [] else text "(config)") ++
    if s.cli.privilege = privileged then text "# " else text "> "

/-- The line behind a prompt, with the cursor back in its place. -/
def line (s : Session) : Option Bytes := do
  let typed ← s.editor.cmd.fetch 0 s.editor.l
  return typed ++ backspaces (s.editor.l - s.editor.cursor)

/-- `if (cli->showprompt)` -/
def prompt (s : Session) : Option Bytes :=
  match s.state with
  | .login => some (lineEnd ++ text "Username: ")
  | .password _ => some (text "Password: ")
  | .enablePassword => some (text "Password: ")
  | _ => s.line.map fun line => lineEnd ++ s.showPrompt ++ line

def stays (s : Session) (sent : Bytes) : Option Turn := some ⟨some s,sent,none,[]⟩

def prompts (s : Session) (sent : Bytes) (call : Option Call) : Option Turn :=
  s.prompt.map fun prompt => ⟨some s,sent,call,prompt⟩

/-- The start of the next line. -/
def again (s : Session) (kept : Bool) (sent : Bytes) (call : Option Call) : Option Turn := do
  let editor ← s.editor.again kept
  ({s with editor := editor}).prompts sent call

/-- The commands of `libcli` itself. `quit` ends the session. -/
def builtin (s : Session) (builtin : Builtin) : Option Session :=
  match builtin with
  | .help => some s
  | .history => some s
  | .quit => none
  | .exit =>
    if s.cli.mode = modeExec then none
    else if s.cli.mode > modeConfig then some {s with cli := {s.cli with mode := modeConfig}}
    else some {s with cli := {s.cli with mode := modeExec}}
  | .enable => some (if s.cli.privilege = privileged then s else {s with state := .enablePassword})
  | .disable => some {s with cli := ⟨unprivileged,modeExec⟩}
  | .configureTerminal => some {s with cli := {s.cli with mode := modeConfig}}

/-- `cli_run_command` up to the callback: the filters it leaves, and the callback with its
arguments and filters. -/
def find (access : Access) (s : Session) (line : Bytes) : List Filter × Option (Callback × Args × List Filter) :=
  let command := (cString line).dropWhile isSpace
  let words := parseLine command
  if command = [] ∨ words = [] then (s.filters,none)
  else
    match findCommand (surroundings access.byteBefore access.regex) [] s.cli registered [] (countedWords words) words with
    | .call callback args =>
      match setUp access.byteBefore access.regex s.filters none (lineFilters words) with
      | .returned left => (left,none)
      | .refused _ => ([],none)
      | .ready chain => ([],some (callback,args,chain))
    | _ => (s.filters,none)

/-- `cli_run_command` -/
def run (access : Access) (s : Session) (line : Bytes) : Option Session × Option Call :=
  match s.find access line with
  | (left,none) => (some {s with filters := left},none)
  | (left,some (.builtin builtin,_,_)) => (({s with filters := left}).builtin builtin,none)
  | (left,some (.handler command,args,chain)) => (some {s with filters := left},some ⟨command,args,chain⟩)

def denied : Bytes := lineEnd ++ lineEnd ++ text "Access denied" ++ lineEnd

/-- What follows a command that has been run. -/
def leave (kept : Bool) (sent : Bytes) : Option Session × Option Call → Option Turn
  | (none,call) => some ⟨none,sent,call,[]⟩
  | (some s,call) => s.again kept sent call

/-- A line of a client that is logged in. -/
def command (access : Access) (s : Session) (kept : Bool) (sent : Bytes) : Option Turn :=
  if s.editor.l = 0 then s.again kept sent none
  else do
    let line ← s.editor.cmd.string 0
    let last ← s.editor.cmd.fetch (s.editor.l - 1) 1
    let history := if last ≠ [0x3F] ∧ ¬sameText line (text "history") then addHistory s.history line else s.history
    leave kept sent (({s with history := history}).run access line)

/-- What follows the loop over the keys of a line. -/
def enter (access : Access) (s : Session) (kept : Bool) (sent : Bytes) : Option Turn :=
  match s.state with
  | .login =>
    if s.editor.l = 0 then s.again kept sent none
    else do
      let username ← s.editor.cmd.string 0
      ({s with state := .password username}).again kept sent none
  | .password username => do
    let password ← s.editor.cmd.string 0
    let allowed ← access.allows username password
    if allowed then ({s with state := .normal}).again kept (sent ++ [0x20] ++ lineEnd) none
    else ({s with state := .login}).again kept (sent ++ denied) none
  | .enablePassword => do
    let typed ← s.editor.cmd.string 0
    let allowed ← passMatches access.crypt access.enablepass typed
    if allowed then
      ({s with state := .enable,cli := {s.cli with privilege := privileged}}).again kept sent none
    else ({s with state := .normal}).again kept (sent ++ denied) none
  | _ => s.command access kept sent

/-- A key that edits the line. -/
def edit (s : Session) (out : Option (Editor × Bytes)) : Option Turn := do
  let (editor,echo) ← out
  ({s with editor := editor}).stays echo

/-- TAB -/
def tab (s : Session) : Option Turn :=
  if s.state = .login ∨ s.hidden ∨ s.editor.cursor ≠ s.editor.l then s.stays []
  else do
    let line ← s.editor.cmd.string 0
    match completions s.cli registered line with
    | [] => s.stays bell
    | [name] => s.edit (s.editor.complete name)
    | first :: others =>
      if s.editor.lastchar = ctrl 0x49 then s.prompts (Editor.listing (first :: others)) none
      else s.edit (s.editor.fill first others)

/-- `CTRL('Z')` -/
def leaveConfig (s : Session) : Option Turn :=
  if s.cli.mode ≠ modeExec then do
    let (cmd,echo) ← s.editor.clearLine
    ({s with editor := {s.editor with cmd := cmd},cli := {s.cli with mode := modeExec}}).prompts echo none
  else s.stays []

/-- A key, from the test for `'\r'` on. -/
def key (access : Access) (s : Session) (c : UInt8) : Option Turn :=
  if c = 0x0D then s.enter access false (if s.hidden then [] else lineEnd)
  else if c = ctrl 0x43 then s.stays bell
  else if c = ctrl 0x4C then
    if s.hidden then s.stays []
    else s.line.bind fun line => s.stays (lineEnd ++ s.showPrompt ++ line)
  else if c = ctrl 0x44 then
    if s.hidden then s.enter access false []
    else if s.editor.l ≠ 0 then s.stays []
    else some ⟨none,[],none,[]⟩
  else if c = ctrl 0x5A then s.leaveConfig
  else if c = ctrl 0x49 then s.tab
  else if c = ctrl 0x50 ∨ c = ctrl 0x4E then
    if s.state = .login ∨ s.hidden then s.stays []
    else (if c = ctrl 0x50 then s.editor.older s.history else s.editor.newer s.history).bind fun found =>
      s.edit (s.editor.fromHistory found)
  else do
    let (editor,echo,next) ← s.editor.press s.hidden c
    let s := {s with editor := editor}
    match next with
    | .more => s.stays echo
    | .entered kept => s.enter access kept echo

/-- A byte of the client. -/
def input (access : Access) (s : Session) (c : UInt8) : Option Turn :=
  let (decoder,keys) := decode s.decoder c
  let s := {s with decoder := decoder}
  match keys with
  | [] => s.stays []
  | c :: _ => s.key access c

end Session

/-- What a client sends without calling a handler, and what it is sent. -/
def feed (access : Access) : Bytes → Session → Option (Session × Bytes)
  | [], s => some (s,[])
  | c :: rest, s => do
    let turn ← s.input access c
    if turn.call.isNone then
      let s ← turn.session
      let (s,sent) ← feed access rest s
      return (s,turn.sent ++ turn.prompt ++ sent)
    else none

/-- A client of a daemon with these passwords, where `crypt` has no result. -/
def guest (username password enablepass : Bytes) : Access :=
  ⟨username,password,enablepass,fun _ _ => none,0,⟨fun _ _ _ => false,fun _ _ _ _ => false⟩⟩

end LEDMessageBoard.CliLoop
