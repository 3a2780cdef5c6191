/-! Texts with two-letter controls: the tokens of a text, the scan that writes a code for
each control, and how both behave where a text is cut. -/
namespace LEDMessageBoard.General.Tokens

variable {α : Type}

inductive Token (α : Type) where
  | control (letter code : α)
  | plain (letter : α)
deriving DecidableEq, Repr

def Token.source (marker : α) (token : Token α) : List α :=
  match token with
  | .control letter _ => [marker,letter]
  | .plain letter => [letter]

def Token.output (mark : α) (token : Token α) : List α :=
  match token with
  | .control _ code => [mark,code]
  | .plain letter => [letter]

/-- The cut between two parts of a text goes through a control. -/
def Splits (marker : α) (table : α → Option α) (front back : List α) : Prop :=
  front.getLast? = some marker ∧ ∃ letter code, back.head? = some letter ∧ table letter = some code

theorem Splits.cons {front back : List α} (marker : α) (table : α → Option α) (first : α) (splits : Splits marker table front back) :
    Splits marker table (first :: front) back := by
  obtain ⟨last,letter⟩ := splits
  refine ⟨?_,letter⟩
  rw [List.getLast?_cons,last]
  rfl

variable [DecidableEq α]

/-- A control is the marker and a letter of the table; every other letter is a token. -/
def tokens (marker : α) (table : α → Option α) : List α → List (Token α)
  | [] => []
  | [last] => [.plain last]
  | first :: second :: rest =>
    if first = marker then
      match table second with
      | some code => .control second code :: tokens marker table rest
      | none => .plain first :: tokens marker table (second :: rest)
    else .plain first :: tokens marker table (second :: rest)

/-- One pass from left to right: each control becomes `mark` and its code. -/
def scan (marker mark : α) (table : α → Option α) : List α → List α
  | [] => []
  | [last] => [last]
  | first :: second :: rest =>
    if first = marker then
      match table second with
      | some code => mark :: code :: scan marker mark table rest
      | none => first :: scan marker mark table (second :: rest)
    else first :: scan marker mark table (second :: rest)

def unscan (marker mark : α) (letterOf : α → Option α) : List α → List α
  | [] => []
  | [last] => [last]
  | first :: second :: rest =>
    if first = mark then
      match letterOf second with
      | some letter => marker :: letter :: unscan marker mark letterOf rest
      | none => first :: unscan marker mark letterOf (second :: rest)
    else first :: unscan marker mark letterOf (second :: rest)

section Scan

variable (marker mark : α) (table : α → Option α)

theorem scan_control (second code : α) (rest : List α) (found : table second = some code) :
    scan marker mark table (marker :: second :: rest) = mark :: code :: scan marker mark table rest := by
  simp [scan,found]

theorem scan_plain (first : α) (rest : List α)
    (plain : first = marker → ∀ second, rest.head? = some second → table second = none) :
    scan marker mark table (first :: rest) = first :: scan marker mark table rest := by
  cases rest with
  | nil => rfl
  | cons second rest =>
    rw [scan]
    split
    next same => rw [plain same second rfl]
    next => rfl

theorem tokens_control (second code : α) (rest : List α) (found : table second = some code) :
    tokens marker table (marker :: second :: rest) = .control second code :: tokens marker table rest := by
  simp [tokens,found]

theorem tokens_plain (first : α) (rest : List α)
    (plain : first = marker → ∀ second, rest.head? = some second → table second = none) :
    tokens marker table (first :: rest) = .plain first :: tokens marker table rest := by
  cases rest with
  | nil => rfl
  | cons second rest =>
    rw [tokens]
    split
    next same => rw [plain same second rfl]
    next => rfl

/-- Every text is empty, or begins with a control, or with a letter that is no control. -/
theorem text_induct (motive : List α → Prop) (nil : motive [])
    (control : ∀ second code rest, table second = some code → motive rest → motive (marker :: second :: rest))
    (plain : ∀ first rest, (first = marker → ∀ second, rest.head? = some second → table second = none) →
      motive rest → motive (first :: rest))
    (list : List α) : motive list := by
  fun_induction tokens marker table list with
  | case1 => exact nil
  | case2 last => exact plain last [] (fun _ _ none => by cases none) nil
  | case3 second rest code found ih => exact control second code rest found ih
  | case4 second rest absent ih =>
    apply plain _ _ _ ih
    rintro _ other same
    cases same
    exact absent
  | case5 first second rest different ih => exact plain first _ (fun same => absurd same different) ih

theorem scan_tokens (list : List α) :
    scan marker mark table list = (tokens marker table list).flatMap (Token.output mark) := by
  induction list using text_induct marker table with
  | nil => rfl
  | control second code rest found ih =>
    rw [scan_control marker mark table second code rest found,tokens_control marker table second code rest found,
      List.flatMap_cons,ih]
    rfl
  | plain first rest plain ih =>
    rw [scan_plain marker mark table first rest plain,tokens_plain marker table first rest plain,List.flatMap_cons,ih]
    rfl

theorem unscan_scan (letterOf : α → Option α) (inverse : ∀ letter code, table letter = some code → letterOf code = some letter)
    (list : List α) (free : mark ∉ list) : unscan marker mark letterOf (scan marker mark table list) = list := by
  induction list using text_induct marker table with
  | nil => rfl
  | control second code rest found ih =>
    rw [scan_control marker mark table second code rest found]
    simp only [unscan,if_true,inverse second code found]
    rw [ih (fun member => free (by simp [member]))]
  | plain first rest plain ih =>
    have different : first ≠ mark := fun same => free (by simp [same])
    rw [scan_plain marker mark table first rest plain]
    have later := ih (fun member => free (by simp [member]))
    cases output : scan marker mark table rest with
    | nil =>
      rw [output] at later
      rw [← later]
      rfl
    | cons next others =>
      rw [output] at later
      rw [unscan,if_neg different,later]

end Scan

section Cut

variable (marker mark : α) (table : α → Option α)

theorem tokens_append (front back : List α) (whole : ¬Splits marker table front back) :
    tokens marker table (front ++ back) = tokens marker table front ++ tokens marker table back := by
  induction front using text_induct marker table with
  | nil => rfl
  | control second code rest found ih =>
    have shorter : ¬Splits marker table rest back := fun splits => whole ((splits.cons _ _ second).cons _ _ marker)
    rw [List.cons_append,List.cons_append,tokens_control marker table second code _ found,
      tokens_control marker table second code _ found,ih shorter,List.cons_append]
  | plain first rest plain ih =>
    have shorter : ¬Splits marker table rest back := fun splits => whole (splits.cons _ _ first)
    have kept : first = marker → ∀ second, (rest ++ back).head? = some second → table second = none := by
      intro same second next
      cases rest with
      | cons other rest => exact plain same second next
      | nil =>
        cases found : table second with
        | none => rfl
        | some code => exact absurd ⟨by rw [same]; rfl,second,code,next,found⟩ whole
    rw [List.cons_append,tokens_plain marker table first _ kept,tokens_plain marker table first rest plain,
      ih shorter,List.cons_append]

def EndsOnToken (list output : List α) : Prop :=
  ∃ count, output = ((tokens marker table list).take count).flatMap (Token.output mark)

theorem scan_of_splits (front back : List α) (no_letter : table marker = none) (splits : Splits marker table front back) :
    ∃ start code rest, scan marker mark table front = scan marker mark table start ++ [marker] ∧
      scan marker mark table (front ++ back) = scan marker mark table start ++ mark :: code :: rest := by
  obtain ⟨last,letter,code,next,found⟩ := splits
  obtain ⟨start,rfl⟩ := List.getLast?_eq_some_iff.mp last
  obtain ⟨rest,rfl⟩ := List.head?_eq_some_iff.mp next
  have whole (others : List α) : ¬Splits marker table start (marker :: others) := by
    rintro ⟨_,letter,code,next,found⟩
    cases next
    rw [no_letter] at found
    cases found
  refine ⟨start,code,scan marker mark table rest,?_,?_⟩
  · rw [scan_tokens,tokens_append marker table start [marker] (whole []),List.flatMap_append,← scan_tokens]
    rfl
  · rw [List.append_assoc,scan_tokens,List.singleton_append,tokens_append marker table start _ (whole _),
      List.flatMap_append,← scan_tokens,← scan_tokens,scan_control marker mark table letter code rest found]

/-- The scan of a cut text ends on a token of the whole text exactly if no control is cut. -/
theorem endsOnToken_iff (front back : List α) (distinct : marker ≠ mark) (no_letter : table marker = none) :
    EndsOnToken marker mark table (front ++ back) (scan marker mark table front) ↔ ¬Splits marker table front back := by
  constructor
  · rintro ⟨count,output⟩ splits
    obtain ⟨start,code,rest,cut,all⟩ := scan_of_splits marker mark table front back no_letter splits
    have part : scan marker mark table front <+: scan marker mark table (front ++ back) := by
      have joined := List.take_append_drop count (tokens marker table (front ++ back))
      refine ⟨((tokens marker table (front ++ back)).drop count).flatMap (Token.output mark),?_⟩
      rw [output,← List.flatMap_append,joined,scan_tokens]
    rw [cut,all,List.prefix_append_right_inj] at part
    obtain ⟨_,same⟩ := part
    exact distinct (List.cons.inj same).1
  · intro whole
    refine ⟨(tokens marker table front).length,?_⟩
    rw [tokens_append marker table front back whole,List.take_left,scan_tokens]

end Cut

end LEDMessageBoard.General.Tokens
