/-! Machines that read a list element by element and put something out for each one, one
machine behind another, and rows of sieves that each pass an element on or drop it. -/
namespace LEDMessageBoard.General.Transducer

variable {σ τ α β γ : Type}

/-- The state after a list, and all that was put out. -/
def emit (step : σ → α → σ × List β) (state : σ) : List α → σ × List β
  | [] => (state,[])
  | value :: rest =>
    let (next,now) := step state value
    let (last,later) := emit step next rest
    (last,now ++ later)

@[simp] theorem emit_nil (step : σ → α → σ × List β) (state : σ) : emit step state [] = (state,[]) := rfl

theorem emit_cons (step : σ → α → σ × List β) (state : σ) (value : α) (rest : List α) :
    emit step state (value :: rest) =
      ((emit step (step state value).1 rest).1,(step state value).2 ++ (emit step (step state value).1 rest).2) := rfl

theorem emit_append (step : σ → α → σ × List β) (state : σ) (first second : List α) :
    emit step state (first ++ second) =
      ((emit step (emit step state first).1 second).1,
        (emit step state first).2 ++ (emit step (emit step state first).1 second).2) := by
  induction first generalizing state with
  | nil => rfl
  | cons value rest ih => simp only [List.cons_append,emit_cons,ih,List.append_assoc]

/-- The second machine reads at once what the first one puts out. -/
def cascade (first : σ → α → σ × List β) (second : τ → β → τ × List γ) (state : σ × τ) (value : α) :
    (σ × τ) × List γ :=
  let (front,passed) := first state.1 value
  let (back,out) := emit second state.2 passed
  ((front,back),out)

/-- Element by element or one whole list after the other comes to the same. -/
theorem emit_cascade (first : σ → α → σ × List β) (second : τ → β → τ × List γ) (front : σ) (back : τ)
    (input : List α) :
    emit (cascade first second) (front,back) input =
      (((emit first front input).1,(emit second back (emit first front input).2).1),
        (emit second back (emit first front input).2).2) := by
  induction input generalizing front back with
  | nil => rfl
  | cons value rest ih =>
    rw [emit_cons,cascade]
    dsimp only
    rw [ih,emit_cons first,emit_append]

/-- A machine that passes each element on or drops it. -/
def sieve (step : σ → α → σ × Bool) (state : σ) (value : α) : σ × List α :=
  ((step state value).1,if (step state value).2 then [value] else [])

/-- A row of sieves; those behind one that drops the element do not see it. -/
def row (step : σ → α → σ × Bool) : List σ → α → List σ × Bool
  | [], _ => ([],true)
  | state :: rest, value =>
    if (step state value).2 then ((step state value).1 :: (row step rest value).1,(row step rest value).2)
    else ((step state value).1 :: rest,false)

theorem emit_row_nil (step : σ → α → σ × Bool) (input : List α) :
    emit (sieve (row step)) [] input = ([],input) := by
  induction input with
  | nil => rfl
  | cons value rest ih =>
    rw [emit_cons]
    change ((emit (sieve (row step)) [] rest).1,[value] ++ (emit (sieve (row step)) [] rest).2) = _
    rw [ih]
    rfl

theorem sieve_row_cons (step : σ → α → σ × Bool) (state : σ) (rest : List σ) (value : α) :
    sieve (row step) (state :: rest) value =
      ((cascade (sieve step) (sieve (row step)) (state,rest) value).1.1 ::
          (cascade (sieve step) (sieve (row step)) (state,rest) value).1.2,
        (cascade (sieve step) (sieve (row step)) (state,rest) value).2) := by
  by_cases kept : (step state value).2 = true
  · simp [sieve,row,cascade,kept,emit_cons]
  · simp [sieve,row,cascade,kept]

theorem emit_row_cons (step : σ → α → σ × Bool) (state : σ) (rest : List σ) (input : List α) :
    emit (sieve (row step)) (state :: rest) input =
      ((emit (sieve step) state input).1 :: (emit (sieve (row step)) rest (emit (sieve step) state input).2).1,
        (emit (sieve (row step)) rest (emit (sieve step) state input).2).2) := by
  have joined (state : σ) (rest : List σ) (input : List α) :
      emit (sieve (row step)) (state :: rest) input =
        ((emit (cascade (sieve step) (sieve (row step))) (state,rest) input).1.1 ::
            (emit (cascade (sieve step) (sieve (row step))) (state,rest) input).1.2,
          (emit (cascade (sieve step) (sieve (row step))) (state,rest) input).2) := by
    induction input generalizing state rest with
    | nil => rfl
    | cons value later ih =>
      rw [emit_cons,emit_cons,sieve_row_cons]
      dsimp only
      rw [ih]
  rw [joined,emit_cascade]

theorem emit_sieve_pure (step : σ → α → σ × Bool) (state : σ) (keeps : α → Bool)
    (steady : ∀ value, step state value = (state,keeps value)) (input : List α) :
    emit (sieve step) state input = (state,input.filter keeps) := by
  induction input with
  | nil => rfl
  | cons value rest ih =>
    rw [emit_cons,sieve,steady]
    dsimp only
    rw [ih,List.filter_cons]
    cases keeps value <;> rfl

theorem emit_sieve_kept (step : σ → α → σ × Bool) (state : σ) (kept : Nat → Bool) (input : List α)
    (decides : ∀ i value, input[i]? = some value → (step (emit (sieve step) state (input.take i)).1 value).2 = kept i) :
    (emit (sieve step) state input).2 = ((input.zipIdx).filter fun entry => kept entry.2).map Prod.fst := by
  induction input generalizing state kept with
  | nil => rfl
  | cons value rest ih =>
    have first : (step state value).2 = kept 0 := decides 0 value rfl
    have later := ih (step state value).1 (fun i => kept (i + 1)) fun i other found => decides (i + 1) other found
    have shifted : (rest.zipIdx 1).filter (fun entry => kept entry.2) =
        (rest.zipIdx.filter fun entry => kept (entry.2 + 1)).map fun entry => (entry.1,entry.2 + 1) := by
      rw [List.zipIdx_succ,List.filter_map]
      rfl
    rw [emit_cons,sieve,List.zipIdx_cons,List.filter_cons]
    dsimp only
    rw [later,first,shifted]
    cases kept 0 <;> simp [Function.comp_def]

/-- Passes on what lies between an element that opens and one that closes, and these two. -/
def sections (opens closes : α → Bool) (inside : Bool) (value : α) : Bool × Bool :=
  if inside || opens value then (!closes value,true) else (false,false)

/-- The element at an index opens, or one before it did and none has closed since. -/
def Within (opens closes : α → Bool) (input : List α) (i : Nat) : Prop :=
  ∃ j value, j ≤ i ∧ input[j]? = some value ∧ opens value = true ∧
    ∀ k other, j ≤ k → k < i → input[k]? = some other → closes other = false

theorem sections_passes (opens closes : α → Bool) (inside : Bool) (value : α) :
    (sections opens closes inside value).2 = (inside || opens value) := by
  unfold sections
  cases inside || opens value <;> rfl

theorem sections_stays (opens closes : α → Bool) (inside : Bool) (value : α) :
    (sections opens closes inside value).1 = ((inside || opens value) && !closes value) := by
  unfold sections
  cases inside || opens value <;> rfl

/-- The state before an index: the section of the element before it has not been closed. -/
def Unclosed (opens closes : α → Bool) (input : List α) (i : Nat) : Prop :=
  ∃ before last, i = before + 1 ∧ input[before]? = some last ∧ closes last = false ∧ Within opens closes input before

theorem within_iff (opens closes : α → Bool) (input : List α) (i : Nat) (value : α) (here : input[i]? = some value) :
    Within opens closes input i ↔ Unclosed opens closes input i ∨ opens value = true := by
  constructor
  · intro within
    obtain ⟨j,first,low,there,opened,still⟩ := within
    by_cases final : j = i
    · subst final
      rw [here] at there
      exact .inr ((Option.some.inj there) ▸ opened)
    · have bound := (List.getElem?_eq_some_iff.mp here).1
      have last : input[i - 1]? = some input[i - 1] := List.getElem?_eq_getElem (by omega)
      refine .inl ⟨i - 1,input[i - 1],by omega,last,still (i - 1) _ (by omega) (by omega) last,j,first,by omega,there,opened,?_⟩
      exact fun k other from_j below member => still k other from_j (by omega) member
  · intro either
    rcases either with ⟨before,last,same,found,closed,j,first,low,there,opened,still⟩ | opened
    · refine ⟨j,first,by omega,there,opened,?_⟩
      intro k other from_j below member
      by_cases final : k = before
      · subst final
        rw [found] at member
        exact (Option.some.inj member) ▸ closed
      · exact still k other from_j (by omega) member
    · exact ⟨i,value,Nat.le_refl i,here,opened,fun k other from_i below => by omega⟩

theorem sections_state (opens closes : α → Bool) (input : List α) (i : Nat) (inside : i ≤ input.length) :
    (emit (sieve (sections opens closes)) false (input.take i)).1 = true ↔ Unclosed opens closes input i := by
  induction i with
  | zero => simp [Unclosed]
  | succ i ih =>
    have here : input[i]? = some input[i] := List.getElem?_eq_getElem (by omega)
    have within := within_iff opens closes input i _ here
    rw [List.take_add_one,here,Option.toList_some,emit_append,emit_cons,sieve]
    dsimp only [emit_nil]
    rw [sections_stays,Bool.and_eq_true,Bool.or_eq_true,ih (by omega),← within,Bool.not_eq_true']
    constructor
    · intro both
      exact ⟨i,input[i],rfl,here,both.2,both.1⟩
    · intro unclosed
      obtain ⟨before,last,same,there,closed,held⟩ := unclosed
      have equal : i = before := by omega
      subst equal
      rw [here] at there
      exact ⟨held,(Option.some.inj there) ▸ closed⟩

open Classical in
theorem emit_sections (opens closes : α → Bool) (input : List α) :
    (emit (sieve (sections opens closes)) false input).2 =
      (input.zipIdx.filter fun entry => decide (Within opens closes input entry.2)).map Prod.fst := by
  apply emit_sieve_kept (sections opens closes) false (fun i => decide (Within opens closes input i))
  intro i value here
  have bound := (List.getElem?_eq_some_iff.mp here).1
  rw [Bool.eq_iff_iff,sections_passes,Bool.or_eq_true,sections_state opens closes input i (by omega),decide_eq_true_iff,
    within_iff opens closes input i value here]

/-- Where nothing closes, all is passed on from the first element that opens. -/
theorem emit_sections_open (opens : α → Bool) (inside : Bool) (input : List α) :
    (emit (sieve (sections opens fun _ => false)) inside input).2 =
      if inside then input else input.dropWhile fun value => !opens value := by
  induction input generalizing inside with
  | nil => cases inside <;> rfl
  | cons value rest ih =>
    rw [emit_cons,sieve]
    dsimp only
    rw [ih,sections_passes,sections_stays,List.dropWhile_cons]
    cases inside <;> cases opens value <;> simp

end LEDMessageBoard.General.Transducer
