/-! Stateful programs that may stop at a fault, and the rules for reasoning about
them. A fault keeps the state in which it happened: what was done before it stays. -/
namespace LEDMessageBoard.General

abbrev Program (σ ε α : Type) : Type := ExceptT ε (StateM σ) α

namespace Program

variable {σ ε α β : Type}

/-- One run of a program from a state: its result, and the state it stopped in. -/
def exec (program : Program σ ε α) (state : σ) : Except ε α × σ :=
  StateT.run (ExceptT.run program) state

def checked (value : Except ε α) : Program σ ε α :=
  match value with
  | .ok result => pure result
  | .error fault => throw fault

@[simp] theorem exec_pure (value : α) (state : σ) :
    exec (pure value : Program σ ε α) state = (.ok value,state) := rfl

@[simp] theorem exec_throw (fault : ε) (state : σ) :
    exec (throw fault : Program σ ε α) state = (.error fault,state) := rfl

@[simp] theorem exec_get (state : σ) :
    exec (get : Program σ ε σ) state = (.ok state,state) := rfl

@[simp] theorem exec_set (next state : σ) :
    exec (set next : Program σ ε PUnit) state = (.ok ⟨⟩,next) := rfl

@[simp] theorem exec_modify (f : σ → σ) (state : σ) :
    exec (modify f : Program σ ε PUnit) state = (.ok ⟨⟩,f state) := rfl

@[simp] theorem exec_checked (value : Except ε α) (state : σ) :
    exec (checked value : Program σ ε α) state = (value,state) := by
  cases value <;> rfl

theorem exec_bind (first : Program σ ε α) (next : α → Program σ ε β) (state : σ) :
    exec (first >>= next) state =
      match exec first state with
      | (.ok value,middle) => exec (next value) middle
      | (.error fault,middle) => (.error fault,middle) := by
  change StateT.run (ExceptT.run (first >>= next)) state = _
  simp only [exec,ExceptT.run_bind,StateT.run_bind]
  cases h : StateT.run (ExceptT.run first) state with
  | mk result middle => cases result <;> rfl

theorem exec_bind_ok {first : Program σ ε α} {value : α} {state middle : σ}
    (ran : exec first state = (.ok value,middle)) (next : α → Program σ ε β) :
    exec (first >>= next) state = exec (next value) middle := by
  rw [exec_bind,ran]

theorem exec_bind_error {first : Program σ ε α} {fault : ε} {state middle : σ}
    (ran : exec first state = (.error fault,middle)) (next : α → Program σ ε β) :
    exec (first >>= next) state = (.error fault,middle) := by
  rw [exec_bind,ran]

theorem exec_bind_congr {first second : Program σ ε α} {state : σ} (same : exec first state = exec second state)
    (next : α → Program σ ε β) : exec (first >>= next) state = exec (second >>= next) state := by
  rw [exec_bind,exec_bind,same]

@[simp] theorem exec_map (f : α → β) (program : Program σ ε α) (state : σ) :
    exec (f <$> program) state = ((exec program state).1.map f,(exec program state).2) := by
  change StateT.run (ExceptT.run (f <$> program)) state = _
  simp only [exec,ExceptT.run_map,StateT.run_map]
  rfl

theorem exec_discard (program : Program σ ε α) (state : σ) :
    exec (discard program) state = ((exec program state).1.map fun _ => (),(exec program state).2) :=
  exec_map _ program state

theorem exec_discard_ok {program : Program σ ε α} {value : α} {state final : σ}
    (ran : exec program state = (.ok value,final)) : exec (discard program) state = (.ok (),final) := by
  rw [exec_discard,ran]
  rfl

theorem exec_discard_error {program : Program σ ε α} {fault : ε} {state final : σ}
    (ran : exec program state = (.error fault,final)) : exec (discard program) state = (.error fault,final) := by
  rw [exec_discard,ran]
  rfl

theorem bind_success (first : Program σ ε α) (next : α → Program σ ε β) (state final : σ) (result : β)
    (ran : exec (first >>= next) state = (.ok result,final)) :
    ∃ value middle, exec first state = (.ok value,middle) ∧ exec (next value) middle = (.ok result,final) := by
  rw [exec_bind] at ran
  cases h : exec first state with
  | mk value middle =>
    rw [h] at ran
    cases value with
    | error fault => cases ran
    | ok value => exact ⟨value,middle,rfl,ran⟩

def fault (result : Except ε α) : Option ε :=
  match result with
  | .ok _ => none
  | .error fault => some fault

/-- The run from a state goes along the relation, which also sees the fault that ended it. -/
def Leads (relation : σ → Option ε → σ → Prop) (program : Program σ ε α) (state : σ) : Prop :=
  relation state (fault (exec program state).1) (exec program state).2

/-- A relation that holds of a whole run if it holds of the parts. -/
structure Composes (relation : σ → Option ε → σ → Prop) : Prop where
  refl : ∀ a, relation a none a
  trans : ∀ a b f c, relation a none b → relation b f c → relation a f c

section Leads

variable {relation : σ → Option ε → σ → Prop}

theorem Leads.of_exec {program : Program σ ε α} {value : α} {state final : σ}
    (ran : exec program state = (.ok value,final)) (step : relation state none final) :
    Leads relation program state := by
  rw [Leads,ran]
  exact step

theorem Leads.pure (composes : Composes relation) (value : α) (state : σ) :
    Leads relation (Pure.pure value : Program σ ε α) state := composes.refl state

theorem Leads.bind (composes : Composes relation) {first : Program σ ε α} {next : α → Program σ ε β} {state : σ}
    (head : Leads relation first state)
    (tail : ∀ value middle, exec first state = (.ok value,middle) → Leads relation (next value) middle) :
    Leads relation (first >>= next) state := by
  unfold Leads at head ⊢
  rw [exec_bind]
  cases h : exec first state with
  | mk result middle =>
    rw [h] at head
    cases result with
    | error fault => exact head
    | ok value => exact composes.trans _ _ _ _ head (tail value middle h)

theorem Leads.get_bind {next : σ → Program σ ε β} {state : σ} (tail : Leads relation (next state) state) :
    Leads relation (get >>= next) state := tail

theorem Leads.discard {program : Program σ ε α} {state : σ} (leads : Leads relation program state) :
    Leads relation (discard program) state := by
  unfold Leads at leads ⊢
  rw [exec_discard]
  cases h : exec program state with
  | mk result middle =>
    rw [h] at leads
    cases result <;> exact leads

end Leads

/-- The programs one after the other, up to the first fault. -/
def inSequence (programs : List (Program σ ε Unit)) : Program σ ε Unit :=
  match programs with
  | [] => pure ()
  | program :: rest => do
    program
    inSequence rest

theorem exec_inSequence_append (first second : List (Program σ ε Unit)) (state : σ) :
    exec (inSequence (first ++ second)) state = exec (do inSequence first; inSequence second) state := by
  induction first generalizing state with
  | nil => simp [inSequence]
  | cons program rest ih =>
    simp only [List.cons_append,inSequence,exec_bind]
    cases exec program state with
    | mk result middle =>
      cases result with
      | error fault => rfl
      | ok value => simpa only [exec_bind] using ih middle

theorem Leads.inSequence {relation : σ → Option ε → σ → Prop} (composes : Composes relation)
    (programs : List (Program σ ε Unit)) (each : ∀ program ∈ programs, ∀ state, Leads relation program state) (state : σ) :
    Leads relation (inSequence programs) state := by
  induction programs generalizing state with
  | nil => exact composes.refl state
  | cons program rest ih =>
    apply Leads.bind composes (each program (by simp) state)
    intro _ middle _
    exact ih (fun other member => each other (by simp [member])) middle

end Program

end LEDMessageBoard.General
