import LEDMessageBoard.DriverRuns

/-! Everything that one `Init`, `setMessage` and `Fini` can do. -/
namespace LEDMessageBoard.Driver
open General General.Program LEDMessageBoard.Frame Escape

def handshakeChunks (line : Line) : List Bytes :=
  if line.reply = [] then [transmitted (line.handshake 0) [0x54]]
  else [transmitted (line.handshake 0) [0x54],transmitted (line.handshake 1) [0x41],
    transmitted (line.handshake 2) [0x42],transmitted (line.handshake 3) [0x43],
    transmitted (line.handshake 4) [0x44],transmitted (line.handshake 5) [0x45]]

def initiated (line : Line) (w : World) : World := sent (opened w) (device w.ctx) (handshakeChunks line)

def closed (w : World) : World := {w with ctx := {w.ctx with sp := some ⟨device w.ctx,false⟩}}

def noting (indices : List Nat) (w : World) : World := {w with reads := w.reads ++ indices}

def showing (line : Line) (pos : Int32) (message : Bytes) (reads : List Nat) (w : World) : World :=
  let stored := recorded (noting reads (initiated line w)) pos (trim message)
  sent stored (device w.ctx) (chunks line pos (trim message) (maskFrame stored.ctx))

def Line.Ready (line : Line) : Prop := line.opens = true ∧ line.control = true

def Resting (target : Bytes) (ctx : LMBCTX) : Prop := ctx.sp = some ⟨target,false⟩

@[simp] theorem initiated_sp (line : Line) (w : World) : (initiated line w).ctx.sp = some ⟨device w.ctx,true⟩ := rfl

theorem exec_init_ready (line : Line) (w : World) (usable : ¬NoLine w.ctx) (ready : Line.Ready line) :
    exec (init line) w = (.ok (decide (line.reply ≠ [])),initiated line w) := by
  rw [exec_init,if_neg usable,if_neg (by simp [ready.1]),if_neg (by simp [ready.2]),
    exec_handshake line _ (device w.ctx) rfl,initiated,handshakeChunks]
  split <;> simp_all

/-- The ways in which one operation can go, from a state where it may start. -/
inductive Outcome (line : Line) (pos : Int32) (message : Bytes) (w : World) : Except Fault Unit → World → Prop where
  | notOpened (refused : line.opens = false) : Outcome line pos message w (.error .openFailed) w
  | notControlled (opens : line.opens = true) (refused : line.control = false) :
    Outcome line pos message w (.error .controlFailed) (opened w)
  | rejected (reads : List Nat) (ready : Line.Ready line) (outside : ¬w.ctx.InRange pos) (nonzero : pos ≠ 0) :
    Outcome line pos message w (.ok ()) (closed (noting reads (initiated line w)))
  | zero (reads : List Nat) (ready : Line.Ready line) (is_zero : pos = 0) :
    Outcome line pos message w (.error .bitsetIndex) {noting reads (initiated line w) with
      ctx := {(initiated line w).ctx with
        displayedmsgs := Function.update w.ctx.displayedmsgs 0 (some (trim message))}}
  | shown (reads : List Nat) (ready : Line.Ready line) (slot : w.ctx.InRange pos) :
    Outcome line pos message w (.ok ()) (closed (showing line pos message reads w))

theorem operate_outcome (line : Line) (arguments : DriverM (Int32 × Bytes)) (pos : Int32) (message : Bytes)
    (reads : List Nat) (evaluates : ∀ v, exec arguments v = (.ok (pos,message),noting reads v)) (w : World)
    (target : Bytes) (resting : Resting target w.ctx) (six : w.ctx.SixSlots) :
    Outcome line pos message w (exec (operate line arguments) w).1 (exec (operate line arguments) w).2 := by
  unfold Resting at resting
  have usable : ¬NoLine w.ctx := by simp [NoLine,resting]
  have must : MustOpen w.ctx := by
    intro sp found
    rw [resting] at found
    cases found
    rfl
  unfold operate
  by_cases opens : line.opens = true
  · by_cases control : line.control = true
    · have ready : Line.Ready line := ⟨opens,control⟩
      let started := noting reads (initiated line w)
      have open_line : started.ctx.sp = some ⟨device w.ctx,true⟩ := rfl
      have started_six : started.ctx.SixSlots := ⟨six.messages,six.msgdisplay⟩
      rw [exec_bind_ok (exec_discard_ok (exec_init_ready line w usable ready)),exec_bind_ok (evaluates _)]
      by_cases slot : w.ctx.InRange pos
      · rw [exec_bind_ok (exec_discard_ok (exec_setMessage_open line started pos message _ started_six slot open_line)),
          exec_discard_ok (exec_fini _ (device w.ctx) true rfl)]
        exact .shown reads ready slot
      · by_cases is_zero : pos = 0
        · subst is_zero
          rw [exec_bind_error (exec_discard_error (exec_setMessage_zero line started message started_six))]
          exact .zero reads ready rfl
        · have rejected := exec_setMessage_rejected line started pos message
            ((guard_iff w.ctx six pos).mpr ⟨slot,is_zero⟩)
          rw [exec_bind_ok (exec_discard_ok rejected),exec_discard_ok (exec_fini _ (device w.ctx) true rfl)]
          exact .rejected reads ready slot is_zero
    · have refused : line.control = false := by simpa using control
      rw [exec_bind_error (exec_discard_error (exec_init_notControlled line w usable opens refused))]
      exact .notControlled opens refused
  · have refused : line.opens = false := by simpa using opens
    rw [exec_bind_error (exec_discard_error (exec_init_notOpened line w usable must refused))]
    exact .notOpened refused

end LEDMessageBoard.Driver
