import LEDMessageBoard.Escape
import LEDMessageBoard.General.Tokens
import Mathlib.Data.List.Nodup

/-! The chain of replacements of `setMessage` as one pass over the text, and what the cut
to 250 bytes does to the controls in it. -/
namespace LEDMessageBoard.Controls
open General.Tokens Escape

/-- The letters that may follow `~`, with the codes that follow 0xC0. -/
def controls : List (UInt8 × UInt8) :=
  (text "H<>PxSOoMQn").zip [0x02,0x04,0x06,0x08,0x0A,0x0C,0x0E,0x10,0x12,0x14,0x16]

def controlCode (letter : UInt8) : Option UInt8 := controls.lookup letter

def singlePass (message : Bytes) : Bytes := scan 0x7E 0xC0 controlCode message

def replaceEach (pairs : List (Bytes × Bytes)) (message : Bytes) : Bytes :=
  pairs.foldl (fun message pair => replaceAll message pair.1 pair.2) message

def replacementOf (pair : UInt8 × UInt8) : Bytes × Bytes := ([0x7E,pair.1],[0xC0,pair.2])

private theorem replacements_eq : replacements = controls.map replacementOf := by decide

/-- A replacement cannot touch what another one wrote, nor write what another one seeks. -/
structure Separate (pair : UInt8 × UInt8) : Prop where
  letter_marker : pair.1 ≠ 0x7E
  letter_mark : pair.1 ≠ 0xC0
  code_marker : pair.2 ≠ 0x7E

private theorem controls_separate : ∀ pair ∈ controls, Separate pair := by
  intro pair member
  have all : controls.all (fun pair => pair.1 != 0x7E && (pair.1 != 0xC0 && pair.2 != 0x7E)) = true := by decide
  have each := List.all_eq_true.mp all pair member
  simp only [Bool.and_eq_true,bne_iff_ne] at each
  exact ⟨each.1,each.2.1,each.2.2⟩

private theorem replaceFrom_match (first second : UInt8) (replacement rest : Bytes) :
    replaceFrom [first,second] replacement 0 (first :: second :: rest) =
      replacement ++ replaceFrom [first,second] replacement 0 rest := by
  rw [replaceFrom,if_pos (by simp)]
  rfl

private theorem replaceFrom_copy (first second byte : UInt8) (replacement rest : Bytes)
    (different : byte = first → rest.head? ≠ some second) :
    replaceFrom [first,second] replacement 0 (byte :: rest) =
      byte :: replaceFrom [first,second] replacement 0 rest := by
  rw [replaceFrom,if_neg]
  rw [List.isPrefixOf_iff_prefix,List.cons_prefix_cons]
  rintro ⟨same,tail,found⟩
  exact different same.symm (by rw [← found]; rfl)

private theorem scan_head (table : UInt8 → Option UInt8) (message : Bytes) (byte : UInt8)
    (head : (scan 0x7E 0xC0 table message).head? = some byte) : message.head? = some byte ∨ byte = 0xC0 := by
  induction message using text_induct 0x7E table with
  | nil => cases head
  | control second code rest found ih =>
    rw [scan_control _ _ _ _ code _ found] at head
    cases head
    exact .inr rfl
  | plain first rest plain ih =>
    rw [scan_plain _ _ _ _ _ plain] at head
    exact .inl head

/-- One more `replace_all` after a pass over the text adds its control to the pass. -/
theorem replace_scan (table : UInt8 → Option UInt8) (pair : UInt8 × UInt8) (separate : Separate pair)
    (fresh : table pair.1 = none) (codes : ∀ letter, table letter ≠ some 0x7E) (message : Bytes) :
    replaceAll (scan 0x7E 0xC0 table message) (replacementOf pair).1 (replacementOf pair).2 =
      scan 0x7E 0xC0 (Function.update table pair.1 (some pair.2)) message := by
  obtain ⟨letter,code⟩ := pair
  change replaceFrom [0x7E,letter] [0xC0,code] 0 (scan 0x7E 0xC0 table message) = _
  induction message using text_induct 0x7E (Function.update table letter (some code)) with
  | nil => rfl
  | control second written rest found ih =>
    rw [scan_control _ _ _ _ _ _ found]
    by_cases same : second = letter
    · subst same
      rw [Function.update_self] at found
      cases found
      have next : scan 0x7E 0xC0 table (second :: rest) = second :: scan 0x7E 0xC0 table rest :=
        scan_plain _ _ _ _ _ fun marker => absurd marker separate.letter_marker
      have first : scan 0x7E 0xC0 table (0x7E :: second :: rest) = 0x7E :: scan 0x7E 0xC0 table (second :: rest) := by
        apply scan_plain
        rintro _ _ same
        cases same
        exact fresh
      rw [first,next,replaceFrom_match,ih]
      rfl
    · rw [Function.update_of_ne same] at found
      have kept : written ≠ 0x7E := by
        rintro rfl
        exact codes second found
      rw [scan_control _ _ _ _ _ _ found,replaceFrom_copy _ _ _ _ _ (fun mark => absurd mark (by decide)),
        replaceFrom_copy _ _ _ _ _ (fun marker => absurd marker kept),ih]
  | plain first rest plain ih =>
    have absent : first = 0x7E → ∀ second, rest.head? = some second → second ≠ letter ∧ table second = none := by
      intro marker second next
      have none := plain marker second next
      by_cases same : second = letter
      · rw [same,Function.update_self] at none
        cases none
      · rw [Function.update_of_ne same] at none
        exact ⟨same,none⟩
    rw [scan_plain _ _ _ _ _ plain,scan_plain _ _ _ _ _ (fun marker second next => (absent marker second next).2),
      replaceFrom_copy,ih]
    intro marker head
    rcases scan_head table rest letter head with next | mark
    · exact (absent marker letter next).1 rfl
    · exact separate.letter_mark mark

private theorem scan_empty (message : Bytes) : scan 0x7E 0xC0 (fun _ => none) message = message := by
  induction message using text_induct (0x7E : UInt8) (fun _ => none) with
  | nil => rfl
  | control second code rest found ih => cases found
  | plain first rest plain ih => rw [scan_plain _ _ _ _ _ plain,ih]

theorem lookup_cons (pair : UInt8 × UInt8) (rest : List (UInt8 × UInt8)) (letter : UInt8) :
    (pair :: rest).lookup letter = if letter = pair.1 then some pair.2 else rest.lookup letter := by
  obtain ⟨key,code⟩ := pair
  rw [List.lookup_cons]
  by_cases same : letter = key
  · rw [if_pos same,beq_iff_eq.mpr same]
  · rw [if_neg same,beq_false_of_ne same]

private theorem replaceEach_scan (pairs : List (UInt8 × UInt8)) (separate : ∀ pair ∈ pairs, Separate pair)
    (distinct : (pairs.map Prod.fst).Nodup) (table : UInt8 → Option UInt8)
    (fresh : ∀ pair ∈ pairs, table pair.1 = none) (codes : ∀ letter, table letter ≠ some 0x7E) (message : Bytes) :
    replaceEach (pairs.map replacementOf) (scan 0x7E 0xC0 table message) =
      scan 0x7E 0xC0 (fun letter => (pairs.lookup letter).or (table letter)) message := by
  induction pairs generalizing table with
  | nil => rfl
  | cons pair rest ih =>
    obtain ⟨new,later⟩ := List.nodup_cons.mp distinct
    have head := separate pair (by simp)
    have absent : ∀ other ∈ rest, other.1 ≠ pair.1 := by
      intro other member same
      exact new (List.mem_map.mpr ⟨other,member,same⟩)
    have fresh_rest : ∀ other ∈ rest, Function.update table pair.1 (some pair.2) other.1 = none := by
      intro other member
      rw [Function.update_of_ne (absent other member)]
      exact fresh other (by simp [member])
    have codes_rest : ∀ letter, Function.update table pair.1 (some pair.2) letter ≠ some 0x7E := by
      intro letter
      by_cases same : letter = pair.1
      · rw [same,Function.update_self]
        exact fun equal => head.code_marker (Option.some.inj equal)
      · rw [Function.update_of_ne same]
        exact codes letter
    have step := replace_scan table pair head (fresh pair (by simp)) codes message
    rw [List.map_cons,replaceEach,List.foldl_cons,step]
    refine (ih (fun other member => separate other (by simp [member])) later _ fresh_rest codes_rest).trans ?_
    congr 1
    funext letter
    by_cases same : letter = pair.1
    · have none : rest.lookup letter = none := by
        rw [List.lookup_eq_none_iff]
        intro other member
        exact bne_iff_ne.mpr fun equal => absent other member (by rw [← equal,same])
      rw [none,same,Function.update_self,lookup_cons,if_pos rfl]
      rfl
    · rw [Function.update_of_ne same,lookup_cons,if_neg same]

private theorem replacements_comm (first second : UInt8 × UInt8) (separate1 : Separate first) (separate2 : Separate second)
    (distinct : first.1 ≠ second.1) (message : Bytes) :
    replaceEach [replacementOf first,replacementOf second] message =
      replaceEach [replacementOf second,replacementOf first] message := by
  have forward := replaceEach_scan [first,second] (by simp [separate1,separate2]) (by simp [distinct]) (fun _ => none)
    (fun _ _ => rfl) (fun _ => nofun) message
  have backward := replaceEach_scan [second,first] (by simp [separate1,separate2]) (by simp [distinct.symm]) (fun _ => none)
    (fun _ _ => rfl) (fun _ => nofun) message
  rw [scan_empty] at forward backward
  refine forward.trans (Eq.trans ?_ backward.symm)
  congr 1
  funext letter
  simp only [lookup_cons,List.lookup_nil]
  by_cases one : letter = first.1
  · rw [if_pos one,if_neg (by rw [one]; exact distinct),if_pos one]
  · rw [if_neg one,if_neg one]

private theorem controls_distinct : (controls.map Prod.fst).Nodup := by decide

private theorem replaceEach_perm (order : List (Bytes × Bytes)) (reordered : order.Perm replacements) (message : Bytes) :
    replaceEach order message = replaceEach replacements message := by
  symm
  apply reordered.symm.foldl_eq'
  intro first first_member second second_member payload
  rw [replacements_eq] at first_member second_member
  obtain ⟨one,one_member,rfl⟩ := List.mem_map.mp first_member
  obtain ⟨two,two_member,rfl⟩ := List.mem_map.mp second_member
  by_cases same : one = two
  · rw [same]
  · have distinct : one.1 ≠ two.1 := fun equal =>
      same (List.inj_on_of_nodup_map controls_distinct one_member two_member equal)
    exact replacements_comm one two (controls_separate one one_member) (controls_separate two two_member) distinct payload

private theorem escape_eq_singlePass (message : Bytes) : escape message = singlePass message := by
  have chain := replaceEach_scan controls controls_separate controls_distinct (fun _ => none) (fun _ _ => rfl)
    (fun _ => nofun) message
  rw [scan_empty,← replacements_eq] at chain
  simp only [Option.or_none] at chain
  exact chain

def controlLetter (code : UInt8) : Option UInt8 := (controls.map Prod.swap).lookup code

private theorem controlLetter_controlCode (letter code : UInt8) (found : controlCode letter = some code) :
    controlLetter code = some letter := by
  obtain ⟨before,later,split,_⟩ := List.lookup_eq_some_iff.mp found
  have all : controls.all (fun pair => controlLetter pair.2 == some pair.1) = true := by decide
  exact eq_of_beq (List.all_eq_true.mp all (letter,code) (by rw [split]; simp))

private theorem escape_injective (message other : Bytes) (free : 0xC0 ∉ message) (free_other : 0xC0 ∉ other)
    (same : escape message = escape other) : message = other := by
  rw [escape_eq_singlePass,escape_eq_singlePass] at same
  have back := congrArg (unscan 0x7E 0xC0 controlLetter) same
  unfold singlePass at back
  rwa [unscan_scan _ _ _ _ controlLetter_controlCode message free,
    unscan_scan _ _ _ _ controlLetter_controlCode other free_other] at back

/-- The eleven replacements one after the other are one pass from left to right; their
order is of no account, and two texts without the byte 0xC0 never give the same payload. -/
theorem escape_single_pass (message : Bytes) :
    escape message = singlePass message ∧ (escape message).length = message.length ∧
      (∀ order : List (Bytes × Bytes), order.Perm replacements → replaceEach order message = escape message) ∧
      (∀ other, 0xC0 ∉ message → 0xC0 ∉ other → escape message = escape other → message = other) :=
  ⟨escape_eq_singlePass message,escape_length message,
    fun order reordered => replaceEach_perm order reordered message,
    fun other free free_other same => escape_injective message other free free_other same⟩

theorem escape_single_pass_tildes :
    replaceEach replacements.reverse (text "~~H~~~n") = [0x7E,0xC0,0x02,0x7E,0x7E,0xC0,0x16] :=
  ((escape_single_pass (text "~~H~~~n")).2.2.1 replacements.reverse (List.reverse_perm _)).trans (by decide)

/-- What is transmitted is the start of what the whole text gives, up to the end of one
of its tokens. -/
structure Uncut (message : Bytes) : Prop where
  start : escape (trim message) <+: escape message
  boundary : EndsOnToken 0x7E 0xC0 controlCode message (escape (trim message))

/-- A control begins with the last byte that is kept. -/
def CutsControl (message : Bytes) : Prop :=
  message[249]? = some 0x7E ∧ ∃ letter code, message[250]? = some letter ∧ controlCode letter = some code

private theorem splits_iff (message : Bytes) :
    Splits 0x7E controlCode (message.take 250) (message.drop 250) ↔ CutsControl message := by
  unfold Splits CutsControl
  rw [List.head?_drop]
  refine and_congr_left ?_
  rintro ⟨letter,code,next,_⟩
  have long : 250 < message.length := (List.getElem?_eq_some_iff.mp next).1
  rw [List.getLast?_eq_getElem?,List.length_take,Nat.min_eq_left (by omega),List.getElem?_take_of_lt (by omega)]

private theorem trim_endsOnToken (message : Bytes) :
    EndsOnToken 0x7E 0xC0 controlCode message (escape (trim message)) ↔ ¬CutsControl message := by
  have cut := endsOnToken_iff 0x7E 0xC0 controlCode (message.take 250) (message.drop 250) (by decide) (by decide)
  rw [List.take_append_drop,splits_iff] at cut
  rw [trim_eq,escape_eq_singlePass]
  exact cut

/-- The board then shows a `~` that the text has only as the start of a control. -/
theorem cut_shows_marker (message : Bytes) (cut : CutsControl message) :
    ∃ start code rest, escape (trim message) = start ++ [0x7E] ∧ escape message = start ++ 0xC0 :: code :: rest := by
  obtain ⟨start,code,rest,trimmed,all⟩ := scan_of_splits 0x7E 0xC0 controlCode (message.take 250) (message.drop 250)
    (by decide) ((splits_iff message).mpr cut)
  rw [List.take_append_drop] at all
  refine ⟨singlePass start,code,rest,?_,?_⟩
  · rw [trim_eq,escape_eq_singlePass]
    exact trimmed
  · rw [escape_eq_singlePass]
    exact all

theorem trim_uncut_iff (message : Bytes) : Uncut message ↔ ¬CutsControl message := by
  constructor
  · intro uncut
    exact (trim_endsOnToken message).mp uncut.boundary
  · intro whole
    have boundary := (trim_endsOnToken message).mpr whole
    refine ⟨?_,boundary⟩
    obtain ⟨count,output⟩ := boundary
    have joined := List.take_append_drop count (tokens 0x7E controlCode message)
    refine ⟨((tokens 0x7E controlCode message).drop count).flatMap (Token.output 0xC0),?_⟩
    rw [output,← List.flatMap_append,joined,escape_eq_singlePass,singlePass,scan_tokens]

theorem control_cut_at_250 : ¬Uncut (List.replicate 249 0x61 ++ text "~H") := by
  intro uncut
  have whole := (trim_endsOnToken _).mp uncut.boundary
  exact whole ⟨rfl,0x48,0x02,rfl,rfl⟩

end LEDMessageBoard.Controls
