import LEDMessageBoard.LibCli
import LEDMessageBoard.Semantics.EditLine
import LEDMessageBoard.Telnet

/-! The line that a client types: the buffer of `cli_loop`, what each key does to it, and
what is echoed. -/
namespace LEDMessageBoard.LineEditor
open General General.Blocks Config LibCli Telnet Semantics

def maxLineLength : Nat := 4096
def maxHistory : Nat := 256

/-- `cmd`, as it is allocated. -/
structure Buffer where
  bytes : Bytes
  size : bytes.length = maxLineLength

namespace Buffer

def zeros : Buffer := ⟨List.replicate maxLineLength 0,List.length_replicate⟩

/-- A run of writes. There is no result where one of them is outside the buffer. -/
def store (b : Buffer) (start : Nat) (run : Bytes) : Option Buffer :=
  if inside : start + run.length ≤ maxLineLength then
    some ⟨overwrite b.bytes start run,(overwrite_length b.bytes start run (by rw [b.size]; exact inside)).trans b.size⟩
  else none

/-- A run of reads. -/
def fetch (b : Buffer) (start count : Nat) : Option Bytes :=
  if start + count ≤ maxLineLength then some ((b.bytes.drop start).take count) else none

/-- The string that starts at an offset. `strlen` and `strdup` leave the buffer where no
NUL follows. -/
def string (b : Buffer) (start : Nat) : Option Bytes :=
  if 0 ∈ b.bytes.drop start then some (cString (b.bytes.drop start)) else none

/-- `memset` and then `strncpy` of 4095 bytes. -/
def ofText (line : Bytes) : Buffer :=
  ⟨padded 0 maxLineLength (line.take (maxLineLength - 1)),padded_length _ _ _⟩

end Buffer

/-- The variables of the loop that a line starts with. -/
structure Editor where
  cmd : Buffer
  l : Nat
  cursor : Nat
  inHistory : Int
  lastchar : UInt8

def Editor.fresh : Editor := ⟨.zeros,0,0,0,0⟩

/-- The start of the next line. What was typed before a `?` stays, without the `?`. -/
def Editor.again (e : Editor) (kept : Bool) : Option Editor := do
  if kept then
    let cmd ← e.cmd.store e.cursor [0]
    return ⟨cmd,e.cursor,e.cursor,0,0⟩
  else return .fresh

inductive Next where
  | more
  /-- The loop over keys ends with a line; `kept` is `oldcmd != 0`. -/
  | entered (kept : Bool)
deriving DecidableEq, Repr

def bell : Bytes := [7]
def backspaces (count : Nat) : Bytes := List.replicate count 8
def blanks (count : Nat) : Bytes := List.replicate count 0x20
def lineEnd : Bytes := [0x0D,0x0A]

def isBlank (c : UInt8) : Bool := c = 0x20

namespace Editor

/-- One round of `while (back--)`. -/
def eraseOnce (hidden : Bool) (e : Editor) : Option (Editor × Bytes) := do
  let cursor := e.cursor - 1
  if e.l = e.cursor then
    let cmd ← e.cmd.store cursor [0]
    return ({e with cmd := cmd,l := e.l - 1,cursor := cursor},if hidden then [] else [8,0x20,8])
  else if hidden then return ({e with l := e.l - 1,cursor := cursor},[])
  else
    let moved ← e.cmd.fetch (cursor + 1) (e.l - cursor + 1)
    let cmd ← e.cmd.store cursor moved
    let rest ← cmd.string cursor
    return ({e with cmd := cmd,l := e.l - 1,cursor := cursor},[8] ++ rest ++ [0x20] ++ backspaces (rest.length + 1))

def eraseBack (hidden : Bool) : Nat → Editor → Option (Editor × Bytes)
  | 0, e => some (e,[])
  | count + 1, e => do
    let (e,first) ← e.eraseOnce hidden
    let (e,others) ← eraseBack hidden count e
    return (e,first ++ others)

/-- Backspace, delete and `CTRL('H')`. -/
def eraseChar (hidden : Bool) (e : Editor) : Option (Editor × Bytes) :=
  if e.l = 0 ∨ e.cursor = 0 then some (e,bell) else e.eraseBack hidden 1

/-- `CTRL('W')` -/
def eraseWord (hidden : Bool) (e : Editor) : Option (Editor × Bytes) := do
  if e.l = 0 ∨ e.cursor = 0 then return (e,[])
  else
    let before ← e.cmd.fetch 0 e.cursor
    e.eraseBack hidden (EditLine.wordBack isBlank before)

/-- `cli_clear_line`, which uses `cmd` for its output. The caller's `l` and `cursor` stay. -/
def clearLine (e : Editor) : Option (Buffer × Bytes) := do
  let wiped := backspaces e.l ++ blanks e.l ++ backspaces e.l
  let cmd ← e.cmd.store 0 wiped
  let cmd ← cmd.store 0 (List.replicate wiped.length 0)
  return (cmd,blanks (e.l - e.cursor) ++ wiped)

/-- `CTRL('U')` -/
def clear (hidden : Bool) (e : Editor) : Option (Editor × Bytes) := do
  if hidden then
    let cmd ← e.cmd.store 0 (List.replicate e.l 0)
    return ({e with cmd := cmd,l := 0,cursor := 0},[])
  else
    let (cmd,echo) ← e.clearLine
    return ({e with cmd := cmd,l := 0,cursor := 0},echo)

/-- `CTRL('K')` -/
def kill (hidden : Bool) (e : Editor) : Option (Editor × Bytes) := do
  if e.cursor = e.l then return (e,[])
  else
    let cmd ← e.cmd.store e.cursor (List.replicate (e.l - e.cursor) 0)
    return ({e with cmd := cmd,l := e.cursor},
      if hidden then [] else blanks (e.l - e.cursor) ++ backspaces (e.l - e.cursor))

/-- `CTRL('B')` -/
def moveLeft (hidden : Bool) (e : Editor) : Option (Editor × Bytes) :=
  if e.cursor = 0 then some (e,[])
  else some ({e with cursor := e.cursor - 1},if hidden then [] else [8])

/-- `CTRL('F')` -/
def moveRight (hidden : Bool) (e : Editor) : Option (Editor × Bytes) := do
  if e.cursor < e.l then
    let shown ← if hidden then pure [] else e.cmd.fetch e.cursor 1
    return ({e with cursor := e.cursor + 1},shown)
  else return (e,[])

/-- `CTRL('A')` -/
def moveHome (hidden : Bool) (e : Editor) : Option (Editor × Bytes) :=
  some ({e with cursor := 0},if hidden then [] else backspaces e.cursor)

/-- `CTRL('E')` -/
def moveEnd (hidden : Bool) (e : Editor) : Option (Editor × Bytes) := do
  if e.cursor < e.l then
    let shown ← if hidden then pure [] else e.cmd.fetch e.cursor (e.l - e.cursor)
    return ({e with cursor := e.l},shown)
  else return (e,[])

/-- `cli->history[index]`, an array of 256 entries. -/
def entry (history : List Bytes) (index : Nat) : Option (Option Bytes) :=
  if index < maxHistory then some history[index]? else none

/-- `CTRL('P')`: `in_history` and the entry there. -/
def older (history : List Bytes) (e : Editor) : Option (Int × Option Bytes) :=
  let i := e.inHistory - 1
  if i < 0 then some (history.length - 1,history.getLast?)
  else (entry history i.toNat).map fun found => (i,found)

/-- `INT_MAX` -/
def intMax : Int := 2147483647

/-- `CTRL('N')`. Past its last value `in_history` overflows: no result. -/
def newer (history : List Bytes) (e : Editor) : Option (Int × Option Bytes) :=
  let i := e.inHistory + 1
  if intMax < i then none
  else if (maxHistory : Int) ≤ i ∨ history[i.toNat]? = none then
    match history.head? with
    | some first => some (0,some first)
    | none => some (i,none)
  else some (i,history[i.toNat]?)

def fromHistory (found : Int × Option Bytes) (e : Editor) : Option (Editor × Bytes) := do
  match found.2 with
  | none => return ({e with inHistory := found.1},[])
  | some line =>
    let (_,echo) ← e.clearLine
    let shown := line.take (maxLineLength - 1)
    return ({e with cmd := .ofText line,l := shown.length,cursor := shown.length,inHistory := found.1},echo ++ shown)

/-- Goes back to behind the last blank or `|` of a line with the cursor at its end. -/
def strip (e : Editor) : Option (Editor × Bytes) := do
  let typed ← e.cmd.fetch 0 e.l
  let back := (typed.reverse.takeWhile fun c => c ≠ 0x20 ∧ c ≠ 0x7C).length
  return ({e with l := e.l - back,cursor := e.cursor - back},backspaces back)

/-- TAB with a single completion. -/
def complete (name : Bytes) (e : Editor) : Option (Editor × Bytes) := do
  let (e,echo) ← e.strip
  let cmd ← e.cmd.store e.l (name ++ [0])
  let cmd ← cmd.store (e.l + name.length) [0x20]
  let l := e.l + name.length + 1
  return ({e with cmd := cmd,l := l,cursor := l},echo ++ name ++ [0x20])

/-- The loop over `fillpos`, from a place on: what the first of several completions has in
common with the others. -/
def commonPrefix : Bytes → List Bytes → Bytes
  | [], _ => []
  | c :: rest, others =>
    if others.all (fun other => other.head? = some c) then c :: commonPrefix rest (others.map List.tail) else []

/-- The first TAB with several completions types what they have in common. -/
def fill (first : Bytes) (others : List Bytes) (e : Editor) : Option (Editor × Bytes) := do
  let (e,echo) ← e.strip
  let filled := commonPrefix first others
  let cmd ← e.cmd.store e.l filled
  let l := e.l + filled.length
  return ({e with cmd := cmd,l := l,cursor := l,lastchar := ctrl 0x49},echo ++ filled ++ bell)

/-- The second TAB lists them, four to a row. -/
def listing (names : List Bytes) : Bytes :=
  lineEnd ++ (names.zipIdx.flatMap fun (name,i) => name ++ if i % 4 = 3 then lineEnd else [0x20]) ++
    if names.length % 4 ≠ 3 then lineEnd else []

/-- The end of the loop for a character that has been put into the line. -/
def typed (hidden : Bool) (c : UInt8) (e : Editor) (echo : Bytes) : Editor × Bytes × Next :=
  if hidden then ({e with lastchar := c},echo,.more)
  else if c = 0x3F ∧ e.cursor = e.l then ({e with cursor := e.l - 1},echo ++ lineEnd,.entered true)
  else ({e with lastchar := c},echo ++ [c],.more)

/-- A normal character. Before the end of the line it is echoed with what follows it. -/
def insert (hidden : Bool) (c : UInt8) (e : Editor) : Option (Editor × Bytes × Next) := do
  if e.cursor = e.l then
    let cmd ← e.cmd.store e.cursor [c]
    if e.l < maxLineLength - 1 then
      return typed hidden c {e with cmd := cmd,l := e.l + 1,cursor := e.cursor + 1} []
    else return ({e with cmd := cmd},bell,.more)
  else
    let l := if maxLineLength - 2 ≤ e.l then e.l - 1 else e.l
    let moved ← e.cmd.fetch e.cursor (l - e.cursor + 1)
    let cmd ← e.cmd.store e.cursor (c :: moved)
    let shown ← cmd.fetch e.cursor (l - e.cursor + 1)
    return typed hidden c {e with cmd := cmd,l := l + 1,cursor := e.cursor + 1}
      (shown ++ backspaces (l - e.cursor + 1))

/-- The keys that only edit the line, in the order of the loop. -/
def press (hidden : Bool) (c : UInt8) (e : Editor) : Option (Editor × Bytes × Next) :=
  let edited (out : Option (Editor × Bytes)) := out.map fun (e,echo) => (e,echo,Next.more)
  if c = ctrl 0x57 then edited (e.eraseWord hidden)
  else if c = ctrl 0x48 ∨ c = 0x7F then edited (e.eraseChar hidden)
  else if c = ctrl 0x55 then edited (e.clear hidden)
  else if c = ctrl 0x4B then edited (e.kill hidden)
  else if c = ctrl 0x42 then edited (e.moveLeft hidden)
  else if c = ctrl 0x46 then edited (e.moveRight hidden)
  else if c = ctrl 0x41 then edited (e.moveHome hidden)
  else if c = ctrl 0x45 then edited (e.moveEnd hidden)
  else e.insert hidden c

end Editor

end LEDMessageBoard.LineEditor
