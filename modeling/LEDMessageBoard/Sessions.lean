import LEDMessageBoard.Context
import LEDMessageBoard.General.Transition

/-! The accept loop of `main` and the sessions it starts. `Clients` only ever grows. -/
namespace LEDMessageBoard.Sessions
open General

/-- The daemon with the entries of `Clients` whose `Startcliloop` has not returned. -/
structure Server where
  ctx : LMBCTX
  running : List Nat

inductive Event where
  | connect (descriptor : Int32)
  /-- `Startcliloop` returns in the thread of this entry of `Clients`. -/
  | finish (session : Nat)
deriving DecidableEq, Repr

/-- The body of the accept loop: a new thread, or `close(x)`. -/
def serve (x : Int32) (server : Server) : Server :=
  if server.ctx.clients.length < server.ctx.maxCli.toNat then
    {ctx := {server.ctx with clients := server.ctx.clients ++ [x]},running := server.running ++ [server.ctx.clients.length]}
  else server

/-- A descriptor of 0 ends the accept loop. -/
inductive Step : System Server Event where
  | connect {server : Server} (descriptor : Int32) (client : descriptor ≠ 0) :
    Step server (.connect descriptor) (serve descriptor server)
  | finish {server : Server} (session : Nat) (live : session ∈ server.running) :
    Step server (.finish session) {server with running := server.running.erase session}

def Started (server : Server) : Prop := server.ctx.clients = [] ∧ server.running = []

def Served (server : Server) (x : Int32) : Prop := (serve x server).ctx.clients = server.ctx.clients ++ [x]

def isConnect : Event → Bool
  | .connect _ => true
  | .finish _ => false

def connects (events : List Event) : Nat := events.countP isConnect

def finishes (events : List Event) : Nat := events.countP fun event => !isConnect event

structure Counted (limit : UInt32) (events : List Event) (server : Server) : Prop where
  bound : server.ctx.maxCli = limit
  clients : server.ctx.clients.length = min (connects events) limit.toNat
  running : server.running.length + finishes events = server.ctx.clients.length

private theorem connects_snoc (events : List Event) (event : Event) :
    connects (events ++ [event]) = connects events + if isConnect event then 1 else 0 := by
  rw [connects,List.countP_append,List.countP_singleton,connects]

private theorem finishes_snoc (events : List Event) (event : Event) :
    finishes (events ++ [event]) = finishes events + if isConnect event then 0 else 1 := by
  rw [finishes,List.countP_append,List.countP_singleton,finishes]
  cases isConnect event <;> rfl

private theorem step_counted (limit : UInt32) (events : List Event) (server last : Server) (event : Event)
    (counted : Counted limit events server) (step : Step server event last) : Counted limit (events ++ [event]) last := by
  obtain ⟨same,clients,running⟩ := counted
  cases step with
  | connect x client =>
    have one : connects (events ++ [.connect x]) = connects events + 1 := connects_snoc events _
    have none : finishes (events ++ [.connect x]) = finishes events := finishes_snoc events _
    unfold serve
    split
    next room =>
      rw [same] at room
      refine ⟨same,?_,?_⟩
      · change (server.ctx.clients ++ [x]).length = _
        rw [List.length_append,List.length_singleton,one]
        omega
      · change (server.running ++ [_]).length + _ = (server.ctx.clients ++ [x]).length
        rw [List.length_append,List.length_append,List.length_singleton,List.length_singleton,none]
        omega
    next full =>
      rw [same] at full
      exact ⟨same,by rw [one]; omega,by rw [none]; exact running⟩
  | finish session live =>
    have none : connects (events ++ [.finish session]) = connects events := connects_snoc events _
    have one : finishes (events ++ [.finish session]) = finishes events + 1 := finishes_snoc events _
    refine ⟨same,by rw [none]; exact clients,?_⟩
    change (server.running.erase session).length + _ = server.ctx.clients.length
    have present : 0 < server.running.length := List.length_pos_of_mem live
    rw [List.length_erase_of_mem live,one]
    omega

private theorem run_counted (initial : Server) (started : Started initial) (events : List Event) (server : Server)
    (run : System.Run Step initial events server) : Counted initial.ctx.maxCli events server :=
  run.induct (Counted initial.ctx.maxCli)
    ⟨rfl,by rw [started.1]; rfl,by rw [started.1,started.2]; rfl⟩
    fun events middle event last counted step => step_counted _ events middle last event counted step

private theorem served_iff (server : Server) (x : Int32) :
    Served server x ↔ server.ctx.clients.length < server.ctx.maxCli.toNat := by
  unfold Served serve
  split
  next room => exact ⟨fun _ => room,fun _ => rfl⟩
  next full =>
    refine ⟨fun same => ?_,fun room => absurd room full⟩
    have lengths := congrArg List.length same
    rw [List.length_append,List.length_singleton] at lengths
    omega

/-- After any run of connects and session ends: the limit counts the live sessions
exactly if fewer clients than the limit have ever connected or no session has ended. -/
theorem limit_counts (initial : Server) (started : Started initial) (events : List Event) (server : Server)
    (run : System.Run Step initial events server) (x : Int32) :
    ((Served server x ↔ server.running.length < server.ctx.maxCli.toNat) ↔
      connects events < server.ctx.maxCli.toNat ∨ finishes events = 0) ∧
    server.running.length ≤ server.ctx.maxCli.toNat := by
  obtain ⟨same,clients,running⟩ := run_counted initial started events server run
  rw [served_iff,same]
  omega

def listening : Server := ⟨mainDefaults false,[]⟩

def fiveConnects : List Event := [.connect 4,.connect 5,.connect 6,.connect 7,.connect 8]

private theorem fiveConnects_run : System.Run Step listening fiveConnects
    ⟨{mainDefaults false with clients := [4,5,6,7,8]},[0,1,2,3,4]⟩ :=
  ((((System.Run.start.next (.connect 4 (by decide))).next (.connect 5 (by decide))).next
    (.connect 6 (by decide))).next (.connect 7 (by decide))).next (.connect 8 (by decide))

theorem limit_counts_five :
    (Served ⟨{mainDefaults false with clients := [4,5,6,7,8]},[0,1,2,3,4]⟩ 9 ↔ 5 < 5) ∧
      [0,1,2,3,4].length ≤ 5 := by
  have counts := limit_counts listening ⟨rfl,rfl⟩ fiveConnects _ fiveConnects_run 9
  exact ⟨counts.1.mpr (.inr rfl),counts.2⟩

/-- Five clients connect, one session ends, and with four sessions running the next
client is turned away. -/
theorem ended_session_counts : ∃ server,
    System.Run Step listening (fiveConnects ++ [.finish 0]) server ∧
      server.running.length < server.ctx.maxCli.toNat ∧ ¬Served server 9 := by
  refine ⟨⟨{mainDefaults false with clients := [4,5,6,7,8]},[1,2,3,4]⟩,fiveConnects_run.next (.finish 0 (by decide)),
    by decide,?_⟩
  rw [served_iff]
  decide

end LEDMessageBoard.Sessions
