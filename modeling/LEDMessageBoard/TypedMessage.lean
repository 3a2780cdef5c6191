import LEDMessageBoard.Quoting
import LEDMessageBoard.Requests
import LEDMessageBoard.TypedLines
import Mathlib.Data.Bool.AllAny
import Mathlib.Data.List.DropRight

/-! From the keys of a client to the text on the board. -/
namespace LEDMessageBoard.TypedMessage
open General General.Transducer General.Program General.Stream Config Cli LibCli Telnet Semantics LineEditor Completion Filters CliLoop
open Typing TypedLines Driver Daemon Rights Clients Encoding Escape Agreement Requests

section Session

variable {access : Access}

private theorem admitted_append (line : EditLine UInt8) (first second : Bytes) :
    Admitted line (first ++ second) ↔ Admitted line first ∧ Admitted (meantAll line first) second := by
  induction first generalizing line with
  | nil => exact (and_iff_right trivial).symm
  | cons c rest ih =>
    change (Admits line c ∧ Admitted (meant c line) (rest ++ second)) ↔ _
    rw [ih,← and_assoc]
    rfl

private theorem meantAll_append (line : EditLine UInt8) (first second : Bytes) :
    meantAll line (first ++ second) = meantAll (meantAll line first) second := List.foldl_append

private theorem step_shows {s last : Session} {label : UInt8 × Option Call} {line : EditLine UInt8} (visible : s.hidden = false)
    (shows : Shows s.editor line) (admitted : Admitted line (emit decode s.decoder [label.1]).2)
    (step : Rights.Step access s label last) :
    ∃ editor, last = {s with editor := editor,decoder := (emit decode s.decoder [label.1]).1} ∧
      Shows editor (meantAll line (emit decode s.decoder [label.1]).2) := by
  cases step with
  | input c byteBefore turn given goes =>
    obtain ⟨editor,sent,fed,after,_⟩ := feed_shows {access with byteBefore := byteBefore} [c] s line visible shows admitted
    refine ⟨editor,?_,after⟩
    obtain ⟨other,took,rest⟩ := Option.bind_eq_some_iff.mp fed
    cases given.symm.trans took
    split at rest
    next =>
      obtain ⟨next,on,tail⟩ := Option.bind_eq_some_iff.mp rest
      cases goes.symm.trans on
      exact congrArg Prod.fst (Option.some.inj tail)
    next => cases rest

/-- The session of a client that types in the line, whatever happens beside it. -/
theorem run_shows {s last : Session} {labels : List (UInt8 × Option Call)} (run : System.Run (Rights.Step access) s labels last)
    (line : EditLine UInt8) (visible : s.hidden = false) (shows : Shows s.editor line)
    (admitted : Admitted line (emit decode s.decoder (labels.map Prod.fst)).2) :
    ∃ editor, last = {s with editor := editor,decoder := (emit decode s.decoder (labels.map Prod.fst)).1} ∧
      Shows editor (meantAll line (emit decode s.decoder (labels.map Prod.fst)).2) := by
  induction run with
  | start => exact ⟨s.editor,rfl,shows⟩
  | @next labels middle last label run step ih =>
    rw [List.map_append,List.map_singleton,emit_append] at admitted ⊢
    obtain ⟨front,rear⟩ := (admitted_append line _ _).mp admitted
    obtain ⟨editor,same,before⟩ := ih front
    subst same
    have still : ({s with editor := editor,decoder := (emit decode s.decoder (labels.map Prod.fst)).1} : Session).hidden =
        false := visible
    obtain ⟨after,end_same,end_shows⟩ := step_shows still before rear step
    refine ⟨after,end_same,?_⟩
    rw [meantAll_append]
    exact end_shows

def messageCommand : CliCommand := leaf "message" (.handler .message) unprivileged modeExec

private theorem parseLine_trimmed (line : Bytes) : parseLine (line.dropWhile isSpace) = parseLine line := by
  unfold parseLine
  dsimp only
  rw [List.dropWhile_idempotent]

private theorem abbreviation_plain {cli : CliDef} {word : Bytes}
    (abbreviates : Abbreviates cli registered word messageCommand) :
    isFilter word = false ∧ ∀ around, lastByte around word ≠ 0x3F := by
  obtain ⟨some_word,front,_⟩ := abbreviates
  have named : Named messageCommand.command := ⟨List.cons_ne_nil _ _,List.all_iff_forall_prop.mp (by decide)⟩
  obtain ⟨c,rest,same⟩ := List.exists_cons_of_ne_nil some_word
  subst same
  refine ⟨?_,?_⟩
  · have first : toLower c = 0x6D := by
      obtain ⟨tail,whole⟩ := front
      exact (List.cons.inj whole).1
    apply decide_eq_false
    intro bar
    cases Option.some.inj bar
    cases first
  · intro around
    have same : (messageCommand.command.take (c :: rest).length).map toLower = ((c :: rest).take (c :: rest).length).map toLower :=
      of_decide_eq_true ((sameCase_front named).mpr front)
    rw [List.take_length] at same
    exact named_asks around named some_word same.symm

private theorem message_called (s : Session) (mode : s.cli.mode = modeExec) (low : unprivileged ≤ s.cli.privilege)
    (line : Bytes)
    (clean : 0 ∉ line) (word number message : Bytes) (parsed : parseLine line = [word,number,message])
    (abbreviates : Abbreviates s.cli registered word messageCommand) (plain : isFilter number = false)
    (plain_text : isFilter message = false) :
    (s.run access line).2 = some ⟨.message,⟨text "message",[number,message],[]⟩,s.filters⟩ := by
  obtain ⟨plain_word,asks⟩ := abbreviation_plain abbreviates
  have level : Level registered := Choice.level (.inl rfl)
  have sees : s.cli.sees messageCommand = true := by
    apply decide_eq_true
    exact ⟨.inr mode.symm,low⟩
  have taken : select s.cli registered word = some (messageCommand,s.cli) :=
    (select_iff level (by rw [mode]; decide) messageCommand s.cli).mpr ⟨rfl,by simp [registered,messageCommand],sees,abbreviates⟩
  have words : parseLine ((cString line).dropWhile isSpace) = [word,number,message] := by
    rw [parseLine_trimmed,cString_clean line clean,parsed]
  have some_line : ¬(cString line).dropWhile isSpace = [] := by
    intro none
    rw [none] at words
    cases words
  have counted : countedWords [word,number,message] = 3 := by
    simp [countedWords,List.findIdx_cons,plain_word,plain,plain_text]
  have unfiltered : lineFilters [word,number,message] = [] := by
    simp [lineFilters,filterArgs,List.findIdx_cons,plain_word,plain,plain_text]
  have found (around : Surroundings) : findCommand around [] s.cli registered [] 3 [word,number,message] =
      .call (.handler .message) ⟨text "message",[number,message],[]⟩ := by
    rw [findCommand,if_neg (asks around),taken]
    rfl
  have reached : s.find access line =
      ([],some (.handler .message,⟨text "message",[number,message],[]⟩,s.filters)) := by
    unfold Session.find
    dsimp only
    rw [words,if_neg (by simp [some_line]),counted,found,unfiltered]
    rfl
  unfold Session.run
  rw [reached]

end Session

def typedBytes (client : Nat) (labels : List Label) : Bytes := (labels.filterMap (Label.typed client)).map Prod.fst

/-- A client that is logged in types a line, and the daemon and the other clients go on. -/
structure Types (first : Server) (client : Nat) (s : Session) (labels : List Label) (server : Server) (entered : Bytes) :
    Prop where
  present : ∃ access, first.sessions client = some (access,s)
  ready : s.state = .normal ∨ s.state = .enable
  mode : s.cli.mode = modeExec
  run : System.Run Clients.Step first labels server
  alone : ∀ label ∈ labels, ¬label.connects client
  shows : ∃ line keys, Shows s.editor line ∧ emit decode s.decoder (typedBytes client labels) = (.rest,keys) ∧
    Admitted line keys ∧ (meantAll line keys).text = entered

private theorem types_calls {first server next : Server} {client : Nat} {s : Session} {labels : List Label} {entered : Bytes}
    (types : Types first client s labels server entered) (low : unprivileged ≤ s.cli.privilege) (word number message : Bytes)
    (parsed : parseLine entered = [word,number,message]) (abbreviates : Abbreviates s.cli registered word messageCommand)
    (plain : isFilter number = false) (plain_text : isFilter message = false) (host : Host) (call : Option Call)
    (enter : Clients.Step server (.input client 0x0D host call) next) :
    call = some ⟨.message,⟨text "message",[number,message],[]⟩,s.filters⟩ := by
  obtain ⟨⟨access,present⟩,ready,mode,run,alone,line,keys,shows,decoded,admitted,same⟩ := types
  cases enter with
  | input _ _ byteBefore _ owner t turn after kept given ran =>
    obtain ⟨_,session⟩ := run_client run client access s present alone owner t kept
    have keyed : (emit decode s.decoder (typedBytes client labels)).2 = keys := by rw [decoded]
    obtain ⟨editor,end_same,end_shows⟩ := run_shows session line (ready_visible ready) shows (by rw [← typedBytes,keyed]; exact admitted)
    rw [← typedBytes,decoded] at end_same end_shows
    subst end_same
    have some_text : (meantAll line keys).text ≠ [] := by
      intro none
      rw [← same,none] at parsed
      cases parsed
    have clean : 0 ∉ entered := by
      rw [← same]
      exact fun zero => (end_shows.glyphs 0 zero).ne.1 rfl
    obtain ⟨other,took,called,_⟩ := enter_runs {owner with byteBefore := byteBefore}
      (s := {s with editor := editor,decoder := .rest}) ready rfl end_shows some_text
    cases given.symm.trans took
    rw [called,same]
    exact message_called
      {s with history := remembered s.history entered,decoder := .rest,editor := editor} mode low entered clean word number message parsed abbreviates plain plain_text

/-- What a client types behind `message` is what the board shows until the slot is asked for
again: with any corrections and telnet options in the line, any abbreviation of the command,
and whatever other clients and files do before, meanwhile and afterwards. -/
theorem typed_message_shown (reached : Reached) (booted : Booted reached) (earlier : List Label) (first : Server)
    (begun : System.Run Clients.Step (.start reached.world) earlier first) (client : Nat) (s : Session) (labels : List Label)
    (server : Server) (entered : Bytes) (types : Types first client s labels server entered) (word number message : Bytes)
    (parsed : parseLine entered = [word,number,message]) (abbreviates : Abbreviates s.cli registered word messageCommand)
    (plain : isFilter number = false) (plain_text : isFilter message = false) (host : Host) (call : Option Call) (next : Server)
    (enter : Clients.Step server (.input client 0x0D host call) next) (later : List Label) (last : Server)
    (after : System.Run Clients.Step next later last) (inside : reached.ctx.InRange (atoi number))
    (others : ∀ other ∈ later.flatMap Label.events, ∀ ctx given, other.delivery ctx = some given → given.2.1 ≠ atoi number)
    (answering : ∀ event ∈ reached.events ++
      (earlier ++ labels ++ .input client 0x0D host call :: later).flatMap Label.events, Answering event)
    (board : Board) (idle : board.phase = .idle) :
    Board.shows (reading board reached.ctx.port last.world) (slotNumber (atoi number)) =
      if 0 < (trim message).length then some (escape (trim message)) else none := by
  obtain ⟨access,present⟩ := types.present
  have low : unprivileged ≤ s.cli.privilege := by
    obtain lowest | high := (session_sound begun present).low_or_high
    · rw [lowest]
      decide
    · rw [high]
      decide
  have called := types_calls types low word number message parsed abbreviates plain plain_text host call enter
  have whole : System.Run Clients.Step (.start reached.world) (earlier ++ labels ++ .input client 0x0D host call :: later) last := by
    have run := ((begun.append types.run).next enter).append after
    rwa [List.append_assoc] at run
  subst called
  exact last_request_shown reached booted (earlier ++ labels) later _ last whole _ rfl host.line (atoi number) message
    (fun _ => rfl) inside others answering board idle

private theorem logged_in : ∃ labels first s, System.Run Clients.Step (.start usualReached.world) labels first ∧
    first.world = usualReached.world ∧ labels.flatMap Label.events = [] ∧
    first.sessions 0 = some (guest (text "admin") (text "password") (text "password"),s) ∧ s.state = .normal ∧ s.cli = lowest ∧
    s.decoder = .rest ∧ Shows s.editor .empty := by
  let access := guest (text "admin") (text "password") (text "password")
  have enters : ((feed access (text "admin\rpassword\r") fresh).map fun fed =>
      ((fed.1.cli,fed.1.state,fed.1.decoder),fed.1.editor.l,fed.1.editor.cursor,fed.1.editor.cmd.bytes.all (· = 0))) =
      some ((lowest,.normal,.rest),0,0,true) := by decide +kernel
  obtain ⟨⟨s,sent⟩,typed,same⟩ := Option.map_eq_some_iff.mp enters
  simp only [Prod.mk.injEq] at same
  obtain ⟨⟨cli,state,decoder⟩,l,cursor,cmd⟩ := same
  have knows : Knows access usualReached.world.ctx := ⟨by decide +kernel,by decide +kernel,by decide +kernel⟩
  have ran := connected_types usualReached.world access knows quietHost _ s sent typed
  have empty : Holds s.editor.cmd [] := by
    have zeros : ∀ c ∈ s.editor.cmd.bytes, c = 0 := by simpa using cmd
    rw [Holds,List.eq_replicate_of_mem zeros,s.editor.cmd.size]
    rfl
  refine ⟨_,_,s,ran,rfl,?_,rfl,state,cli,decoder,⟨empty,l,cursor,by simp [EditLine.empty,EditLine.text],by simp [EditLine.empty,EditLine.text]⟩⟩
  simp [Label.events]

private theorem typedBytes_typing (client : Nat) (host : Host) (bytes : Bytes) :
    typedBytes client (bytes.map fun c => .input client c host none) = bytes := by
  simp [typedBytes,Label.typed,Function.comp_def]

/-- `mess 1 "Hi"`, behind a telnet option and with a slip of the finger. -/
theorem typed_message_shown_hi :
    ∃ earlier first s labels server call next, System.Run Clients.Step (.start usualReached.world) earlier first ∧
      Types first 0 s labels server (text "mess 1 \"Hi\"") ∧ Clients.Step server (.input 0 0x0D quietHost call) next ∧
      Board.shows (reading ⟨.idle,fun _ _ => [],0⟩ usualReached.ctx.port next.world) 1 = some (text "Hi") := by
  obtain ⟨earlier,first,s,begun,world,quiet,present,state,cli,decoder,shows⟩ := logged_in
  let access := guest (text "admin") (text "password") (text "password")
  let bytes : Bytes := [255,253,3] ++ text "mesx\x08s 1 \"Hi\""
  let keys : Bytes := text "mesx\x08s 1 \"Hi\""
  let args : Args := ⟨text "message",[text "1",text "Hi"],[]⟩
  have decoded : emit decode s.decoder bytes = (.rest,keys) := by
    rw [decoder]
    decide
  have admitted : Admitted .empty keys := by decide
  have entered : (meantAll .empty keys).text = text "mess 1 \"Hi\"" := by decide
  have abbreviates : Abbreviates s.cli registered (text "mess") messageCommand := by
    rw [cli]
    unfold Abbreviates
    decide
  have ready : s.state = .normal ∨ s.state = .enable := .inl state
  have mode : s.cli.mode = modeExec := by rw [cli]; rfl
  have low : unprivileged ≤ s.cli.privilege := by
    rw [cli]
    decide
  have keyed : (emit decode s.decoder bytes).2 = keys := by rw [decoded]
  obtain ⟨editor,sent,fed,after,_⟩ := feed_shows access bytes s .empty (ready_visible ready) shows (by rw [keyed]; exact admitted)
  rw [decoded] at fed after
  let ended : Session := {s with editor := editor,decoder := .rest}
  obtain ⟨turn,given,called,_⟩ := enter_runs access (s := ended) ready rfl after (by rw [entered]; decide)
  rw [entered,message_called {ended with history := remembered ended.history (text "mess 1 \"Hi\"")} mode low _ (by decide)
    (text "mess") (text "1") (text "Hi") (by decide) abbreviates (by decide) (by decide)] at called
  have typing := run_typing .start 0 access bytes s ended sent present fed quietHost
  let labels : List Label := bytes.map fun c => .input 0 c quietHost none
  let server : Server := {first with sessions := Function.update first.sessions 0 (some (access,ended))}
  have types : Types first 0 s labels server (text "mess 1 \"Hi\"") := by
    refine ⟨⟨access,present⟩,ready,mode,typing,?_,.empty,keys,shows,?_,admitted,entered⟩
    · intro label member
      obtain ⟨c,_,same⟩ := List.mem_map.mp member
      rw [← same]
      exact id
    · rw [typedBytes_typing]
      exact decoded
  let critical : DriverM Unit := inSequence [Event.program (.cli .message quietHost args)]
  have ran : exec critical server.world = (.ok (),(exec critical usualReached.world).2) := by
    change exec critical first.world = _
    rw [world]
    exact ran_of_isOk critical _ (by decide +kernel)
  have enter := @Clients.Step.input server 0 0x0D access.byteBefore quietHost access ended turn _ (by simp [server]) given
    (by rw [called]; exact ran)
  refine ⟨earlier,first,s,labels,server,turn.call,_,begun,types,enter,?_⟩
  have answering : ∀ event ∈ usualReached.events ++
      (earlier ++ labels ++ [Label.input 0 0x0D quietHost turn.call]).flatMap Label.events, Answering event := by
    have silent : labels.flatMap Label.events = [] := by simp [labels,Label.events]
    intro event member
    rw [List.flatMap_append,List.flatMap_append,quiet,silent,called] at member
    obtain booted | typed := List.mem_append.mp member
    · exact usualReached_answering event booted
    · rw [List.mem_singleton.mp typed]
      exact Line.answering_answers
  exact typed_message_shown usualReached usualReached_booted earlier first begun 0 s labels server _ types (text "mess")
    (text "1") (text "Hi") (by decide) abbreviates (by decide) (by decide) quietHost turn.call _ enter [] _ .start (by decide +kernel)
    (List.forall_mem_nil _) answering ⟨.idle,fun _ _ => [],0⟩ rfl

end LEDMessageBoard.TypedMessage
