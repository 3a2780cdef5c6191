import LEDMessageBoard.LibCli
import Mathlib.Data.Bool.AllAny

/-! How words are written into a line: bare or in quotes, with blanks between them, and
which words a line can have at all. -/
namespace LEDMessageBoard.Quoting
open Config Cli LibCli

def isQuote (c : UInt8) : Bool := c = 0x22 ∨ c = 0x27

/-- A character that a bare word may have. -/
def Plain (c : UInt8) : Prop := isSpace c = false ∧ c ≠ 0x7C ∧ isQuote c = false

instance (c : UInt8) : Decidable (Plain c) := inferInstanceAs (Decidable (_ ∧ _))

def Unquoted (word : Bytes) : Prop := ∀ c ∈ word, isQuote c = false

instance (word : Bytes) : Decidable (Unquoted word) := List.decidableBAll (fun c => isQuote c = false) word

/-- A word as it stands in a line. -/
inductive Written where
  | bare (word : Bytes) (some_byte : word ≠ []) (plain : ∀ c ∈ word, Plain c)
  | quoted (mark : UInt8) (word : Bytes) (quote : isQuote mark = true) (unquoted : Unquoted word)

def Written.text : Written → Bytes
  | .bare word _ _ => word
  | .quoted mark word _ _ => mark :: word ++ [mark]

def Written.value : Written → Bytes
  | .bare word _ _ => word
  | .quoted _ word _ _ => word

/-- A word behind the first one. -/
structure Spaced where
  gap : Bytes
  some_blank : gap ≠ []
  blank : ∀ c ∈ gap, isSpace c = true
  word : Written

def Spaced.text (spaced : Spaced) : Bytes := spaced.gap ++ spaced.word.text

private theorem parse_none (inquote : Option UInt8) (word : Option Bytes) (line : Bytes) : parseFrom 0 inquote word line = [] :=
  List.eq_nil_of_length_eq_zero (Nat.le_zero.mp (parseFrom_length 0 inquote word line))

private theorem parse_blank (room : Nat) {c : UInt8} (blank : isSpace c = true) (rest : Bytes) :
    parseFrom room none none (c :: rest) = parseFrom room none none rest := by
  have marks : ¬(c = 0x22 ∨ c = 0x27) ∧ c ≠ 0x7C := by
    refine ⟨?_,?_⟩
    · intro quote
      obtain same | same := quote
      all_goals
        subst same
        cases blank
    · intro same
      subst same
      cases blank
  by_cases some_room : room = 0
  · rw [some_room,parse_none,parse_none]
  · rw [parseFrom.eq_def]
    simp [some_room,blank,marks]

private theorem parse_blanks (room : Nat) (gap : Bytes) (blank : ∀ c ∈ gap, isSpace c = true) (rest : Bytes) :
    parseFrom room none none (gap ++ rest) = parseFrom room none none rest := by
  induction gap with
  | nil => rfl
  | cons c others ih =>
    rw [List.cons_append,parse_blank room (blank c List.mem_cons_self),
      ih fun other member => blank other (List.mem_cons_of_mem _ member)]

section Steps

variable {room : Nat} (some_room : room ≠ 0)

include some_room in
private theorem parse_plain {c : UInt8} (plain : Plain c) (passed rest : Bytes) :
    parseFrom room none (some passed) (c :: rest) = parseFrom room none (some (passed ++ [c])) rest := by
  obtain ⟨space,bar,quote⟩ := plain
  have marks : ¬(c = 0x22 ∨ c = 0x27) := of_decide_eq_false quote
  rw [parseFrom.eq_def]
  simp [some_room,space,bar,marks]

include some_room in
private theorem parse_bare (word : Bytes) (plain : ∀ c ∈ word, Plain c) (passed rest : Bytes) :
    parseFrom room none (some passed) (word ++ rest) = parseFrom room none (some (passed ++ word)) rest := by
  induction word generalizing passed with
  | nil => simp
  | cons c others ih =>
    rw [List.cons_append,parse_plain some_room (plain c List.mem_cons_self),
      ih (fun other member => plain other (List.mem_cons_of_mem _ member)),List.append_assoc]
    rfl

include some_room in
private theorem parse_begin {c : UInt8} (plain : Plain c) (rest : Bytes) :
    parseFrom room none none (c :: rest) = parseFrom room none (some [c]) rest := by
  obtain ⟨space,bar,quote⟩ := plain
  have marks : ¬(c = 0x22 ∨ c = 0x27) := of_decide_eq_false quote
  rw [parseFrom.eq_def]
  simp [some_room,space,bar,marks]

include some_room in
private theorem parse_ends {c : UInt8} (blank : isSpace c = true) (word rest : Bytes) :
    parseFrom room none (some word) (c :: rest) = word :: parseFrom (room - 1) none none rest := by
  rw [parseFrom.eq_def]
  simp [some_room,blank]

include some_room in
private theorem parse_opens {mark : UInt8} (quote : isQuote mark = true) (inquote : Option UInt8)
    (other : inquote ≠ some mark) (word : Option Bytes) (rest : Bytes) :
    parseFrom room inquote word (mark :: rest) = parseFrom room (some mark) (some []) rest := by
  have marks : mark = 0x22 ∨ mark = 0x27 := of_decide_eq_true quote
  have ends : isSpace mark = false ∧ mark ≠ 0x7C := by
    obtain same | same := marks
    all_goals
      subst same
      decide
  rw [parseFrom.eq_def]
  simp [some_room,other,ends,marks]

include some_room in
private theorem parse_quoted (mark : UInt8) (word : Bytes) (quote : isQuote mark = true) (unquoted : Unquoted word)
    (passed rest : Bytes) :
    parseFrom room (some mark) (some passed) (word ++ rest) = parseFrom room (some mark) (some (passed ++ word)) rest := by
  induction word generalizing passed with
  | nil => simp
  | cons c others ih =>
    have inside := unquoted c List.mem_cons_self
    have marks : ¬(c = 0x22 ∨ c = 0x27) := of_decide_eq_false inside
    have apart : mark ≠ c := by
      intro same
      rw [same,inside] at quote
      cases quote
    rw [List.cons_append,parseFrom.eq_def]
    simp only [some_room,if_false,Option.some.injEq,apart,reduceCtorEq,false_and,marks]
    rw [ih fun other member => unquoted other (List.mem_cons_of_mem _ member),List.append_assoc]
    rfl

include some_room in
private theorem parse_closes (mark : UInt8) (word rest : Bytes) :
    parseFrom room (some mark) (some word) (mark :: rest) = word :: parseFrom (room - 1) none none rest := by
  rw [parseFrom.eq_def]
  simp [some_room]

end Steps

/-- What may follow a word: nothing or a blank. -/
def Apart (rest : Bytes) : Prop := rest = [] ∨ ∃ c tail, rest = c :: tail ∧ isSpace c = true

private theorem parse_after {room : Nat} (some_room : room ≠ 0) (word : Bytes) {rest : Bytes} (apart : Apart rest) :
    parseFrom room none (some word) rest = word :: parseFrom (room - 1) none none rest := by
  obtain none | ⟨c,tail,same,blank⟩ := apart
  · subst none
    simp [parseFrom,some_room]
  · rw [same,parse_ends some_room blank,parse_blank (room - 1) blank]

/-- At the start of the line `word_start` is set already. -/
theorem parse_word {room : Nat} (some_room : room ≠ 0) (word : Written) {start : Option Bytes}
    (fresh : start = none ∨ start = some []) {rest : Bytes} (apart : Apart rest) :
    parseFrom room none start (word.text ++ rest) = word.value :: parseFrom (room - 1) none none rest := by
  cases word with
  | bare word some_byte plain =>
    obtain ⟨c,others,same⟩ := List.exists_cons_of_ne_nil some_byte
    subst same
    have first := plain c List.mem_cons_self
    have whole : parseFrom room none start (c :: others ++ rest) = parseFrom room none (some [c]) (others ++ rest) := by
      obtain none | empty := fresh
      · rw [none]
        exact parse_begin some_room first (others ++ rest)
      · rw [empty]
        exact parse_plain some_room first [] (others ++ rest)
    have later (other : UInt8) (member : other ∈ others) : Plain other := plain other (List.mem_cons_of_mem _ member)
    change parseFrom room none start (c :: others ++ rest) = _
    rw [whole,parse_bare some_room others later,parse_after some_room _ apart]
    rfl
  | quoted mark word quote unquoted =>
    have text : (Written.quoted mark word quote unquoted).text ++ rest = mark :: (word ++ mark :: rest) := by
      simp [Written.text]
    rw [text,parse_opens some_room quote none (Option.some_ne_none _).symm,parse_quoted some_room mark word quote unquoted,
      parse_closes some_room]
    rfl

private theorem spaced_apart (rest : List Spaced) {tail : Bytes} (apart : Apart tail) :
    Apart (rest.flatMap Spaced.text ++ tail) := by
  cases rest with
  | nil => exact apart
  | cons spaced others =>
    obtain ⟨gap,some_blank,spaces,word⟩ := spaced
    obtain ⟨c,more,same⟩ := List.exists_cons_of_ne_nil some_blank
    subst same
    exact .inr ⟨c,_,rfl,spaces c List.mem_cons_self⟩

private theorem blank_apart (ends : Bytes) (blank : ∀ c ∈ ends, isSpace c = true) : Apart ends := by
  cases ends with
  | nil => exact .inl rfl
  | cons c tail => exact .inr ⟨c,tail,rfl,blank c List.mem_cons_self⟩

private theorem parse_spaced (rest : List Spaced) {tail : Bytes} (apart : Apart tail) (room : Nat) (few : rest.length ≤ room) :
    parseFrom room none none (rest.flatMap Spaced.text ++ tail) =
      (rest.map fun spaced => spaced.word.value) ++ parseFrom (room - rest.length) none none tail := by
  induction rest generalizing room with
  | nil => rfl
  | cons spaced others ih =>
    rw [List.length_cons] at few
    have some_room : room ≠ 0 := by omega
    have left : room - 1 - others.length = room - (others.length + 1) := by omega
    rw [List.flatMap_cons,Spaced.text,List.append_assoc,List.append_assoc,parse_blanks room spaced.gap spaced.blank,
      parse_word some_room spaced.word (.inl rfl) (spaced_apart others apart),ih (room - 1) (by omega),left]
    rfl

private theorem written_starts (word : Written) : ∃ c rest, word.text = c :: rest ∧ isSpace c = false := by
  cases word with
  | bare word some_byte plain =>
    obtain ⟨c,others,same⟩ := List.exists_cons_of_ne_nil some_byte
    exact ⟨c,others,same,(plain c (by rw [same]; exact List.mem_cons_self)).1⟩
  | quoted mark word quote unquoted =>
    refine ⟨mark,word ++ [mark],rfl,?_⟩
    obtain same | same := of_decide_eq_true quote
    all_goals
      subst same
      rfl

private theorem parse_front (front : Bytes) (first : Written) (rest : List Spaced) {tail : Bytes}
    (leading : ∀ c ∈ front, isSpace c = true) (apart : Apart tail) (few : rest.length + 1 < maxLineWords) :
    parseLine (front ++ (first.text ++ (rest.flatMap Spaced.text ++ tail))) =
      first.value :: (rest.map fun spaced => spaced.word.value) ++ parseFrom (126 - rest.length) none none tail := by
  obtain ⟨c,others,starts,visible⟩ := written_starts first
  have dropped : (front ++ (first.text ++ (rest.flatMap Spaced.text ++ tail))).dropWhile isSpace =
      first.text ++ (rest.flatMap Spaced.text ++ tail) := by
    rw [List.dropWhile_append_of_pos leading,starts]
    simp [visible]
  have some_text : ¬first.text ++ (rest.flatMap Spaced.text ++ tail) = [] := by
    rw [starts]
    exact List.cons_ne_nil _ _
  simp only [maxLineWords] at few
  unfold parseLine
  dsimp only
  rw [dropped,if_neg some_text,parse_word (by decide) first (.inr rfl) (spaced_apart rest apart),
    parse_spaced rest apart _ (by simp only [maxLineWords]; omega)]
  rfl

/-- A line of words with blanks between them is parsed into the words. -/
theorem parse_line (front : Bytes) (first : Written) (rest : List Spaced) (ends : Bytes)
    (leading : ∀ c ∈ front, isSpace c = true) (trailing : ∀ c ∈ ends, isSpace c = true)
    (few : rest.length + 1 < maxLineWords) :
    parseLine (front ++ (first.text ++ (rest.flatMap Spaced.text ++ ends))) =
      first.value :: rest.map fun spaced => spaced.word.value := by
  have nothing (room : Nat) : parseFrom room none none ends = [] := by
    have skipped := parse_blanks room ends trailing []
    rw [List.append_nil] at skipped
    rw [skipped]
    simp [parseFrom]
  rw [parse_front front first rest leading (blank_apart ends trailing) few,nothing,List.append_nil]

/-- A word that a line can have: no quote and no NUL. -/
def Sayable (word : Bytes) : Prop := ∀ c ∈ word, isQuote c = false ∧ c ≠ 0

instance (word : Bytes) : Decidable (Sayable word) := List.decidableBAll (fun c => isQuote c = false ∧ c ≠ 0) word

private theorem parseFrom_sayable (room : Nat) (inquote : Option UInt8) (word : Option Bytes) (line : Bytes) (clean : 0 ∉ line)
    (passed : ∀ held, word = some held → Sayable held) :
    ∀ parsed ∈ parseFrom room inquote word line, Sayable parsed := by
  have one (word : Option Bytes) (passed : ∀ held, word = some held → Sayable held) : ∀ held ∈ word.toList, Sayable held :=
    fun held member => passed held (Option.mem_toList.mp member)
  have nothing : ∀ held : Bytes, none = some held → Sayable held := by
    intro held same
    cases same
  have bar : Sayable [0x7C] := by decide
  have both {front rest : List Bytes} (early : ∀ word ∈ front, Sayable word) (later : ∀ word ∈ rest, Sayable word) :
      ∀ word ∈ front ++ rest, Sayable word := by
    intro word member
    obtain inside | behind := List.mem_append.mp member
    · exact early word inside
    · exact later word behind
  fun_induction parseFrom room inquote word line with
  | case1 => exact List.forall_mem_nil _
  | case2 room _ word some_room => exact one word passed
  | case3 => exact List.forall_mem_nil _
  | case4 room word c rest some_room ih => exact both (one word passed) (ih (List.not_mem_of_not_mem_cons clean) nothing)
  | case5 room inquote word c rest some_room _ _ ih =>
    exact both (one word passed) (ih (List.not_mem_of_not_mem_cons clean) nothing)
  | case6 room inquote word c rest some_room _ _ _ ih =>
    apply both (one word passed)
    split
    next => exact List.forall_mem_nil _
    next => exact List.forall_mem_cons.mpr ⟨bar,ih (List.not_mem_of_not_mem_cons clean) nothing⟩
  | case7 room inquote word c rest some_room _ _ _ _ ih =>
    apply ih (List.not_mem_of_not_mem_cons clean)
    intro held same
    cases same
    exact List.forall_mem_nil _
  | case8 room inquote c rest some_room _ marks before _ _ ih =>
    apply ih (List.not_mem_of_not_mem_cons clean)
    intro held same
    cases same
    have front := passed before rfl
    intro other member
    obtain inside | last := List.mem_append.mp member
    · exact front other inside
    · rw [List.mem_singleton.mp last]
      exact ⟨decide_eq_false marks,(List.ne_of_not_mem_cons clean).symm⟩
  | case9 room inquote rest some_room _ _ _ _ ih =>
    exact List.forall_mem_cons.mpr ⟨bar,ih (List.not_mem_of_not_mem_cons clean) nothing⟩
  | case10 room inquote c rest some_room _ _ _ _ _ _ ih => exact ih (List.not_mem_of_not_mem_cons clean) nothing
  | case11 room inquote c rest some_room _ marks _ _ _ _ ih =>
    apply ih (List.not_mem_of_not_mem_cons clean)
    intro held same
    cases same
    intro other member
    rw [List.mem_singleton.mp member]
    exact ⟨decide_eq_false marks,(List.ne_of_not_mem_cons clean).symm⟩

private theorem parseLine_sayable (line : Bytes) (clean : 0 ∉ line) : ∀ word ∈ parseLine line, Sayable word := by
  apply parseFrom_sayable
  · exact fun member => clean ((List.dropWhile_suffix isSpace).subset member)
  · intro held begun
    split at begun
    next => cases begun
    next =>
      cases begun
      exact List.forall_mem_nil _

def quoted (word : Bytes) (unquoted : Unquoted word) : Written := .quoted 0x22 word (by decide) unquoted

/-- Every word in double quotes. -/
def quotedLine : List Bytes → Bytes
  | [] => []
  | first :: rest => [0x22] ++ first ++ [0x22] ++ rest.flatMap fun word => [0x20,0x22] ++ word ++ [0x22]

private theorem parse_quotedLine (words : List Bytes) (few : words.length < maxLineWords)
    (unquoted : ∀ word ∈ words, Unquoted word) :
    parseLine (quotedLine words) = words := by
  cases words with
  | nil => rfl
  | cons first rest =>
    obtain ⟨clean,others⟩ := List.forall_mem_cons.mp unquoted
    let spaced : List Spaced := rest.attach.map fun word =>
      ⟨[0x20],List.cons_ne_nil _ _,List.forall_mem_singleton.mpr rfl,quoted word.val (others word.val word.property)⟩
    have texts : rest.flatMap (fun word => [0x20,0x22] ++ word ++ [0x22]) = spaced.flatMap Spaced.text := by
      rw [List.flatMap_map]
      conv_lhs => rw [← List.attach_map_subtype_val rest]
      rw [List.flatMap_map]
      rfl
    have values : spaced.map (fun spaced => spaced.word.value) = rest := by
      rw [List.map_map]
      conv_rhs => rw [← List.attach_map_subtype_val rest]
      rfl
    have parsed := parse_line [] (quoted first clean) spaced [] (List.forall_mem_nil _) (List.forall_mem_nil _)
      (by simpa [spaced] using few)
    have text : quotedLine (first :: rest) =
        (quoted first clean).text ++ rest.flatMap fun word => [0x20,0x22] ++ word ++ [0x22] := rfl
    rw [values,List.append_nil,List.nil_append,← texts,← text] at parsed
    exact parsed

private theorem quotedLine_clean (words : List Bytes) (clean : ∀ word ∈ words, 0 ∉ word) : 0 ∉ quotedLine words := by
  cases words with
  | nil => exact List.not_mem_nil
  | cons first rest =>
    obtain ⟨start,others⟩ := List.forall_mem_cons.mp clean
    simpa [quotedLine,start] using others

/-- The words that a line can have: less than 128, without a quote or a NUL in any of them. A
handler is given no other words. -/
theorem parseLine_iff (words : List Bytes) :
    ((∃ line, 0 ∉ line ∧ parseLine line = words) ↔ words.length < maxLineWords ∧ ∀ word ∈ words, Sayable word) ∧
      ∀ around cli commands line found args, runCommand around cli commands line = .call found args →
        ∀ word ∈ args.words ++ args.filters, Sayable word := by
  refine ⟨⟨?_,?_⟩,?_⟩
  · intro parsed
    obtain ⟨line,clean,same⟩ := parsed
    rw [← same]
    exact ⟨parseLine_length line,parseLine_sayable line clean⟩
  · intro can
    obtain ⟨few,sayable⟩ := can
    refine ⟨quotedLine words,quotedLine_clean words ?_,parse_quotedLine words few ?_⟩
    · exact fun word member zero => (sayable word member 0 zero).2 rfl
    · exact fun word member c inside => (sayable word member c inside).1
  · intro around cli commands line found args called word member
    obtain ⟨name,_,whole,_⟩ := runCommand_args around cli commands line found args called
    have clean : 0 ∉ (cString line).dropWhile isSpace := by
      intro inside
      have kept := List.mem_takeWhile_imp ((List.dropWhile_suffix isSpace).subset inside)
      simp at kept
    apply parseLine_sayable _ clean
    rw [whole]
    exact List.mem_append_right _ member

/-- An apostrophe in double quotes starts the word anew, and the closing quote does so once
more: what is left of the text is an empty word. -/
theorem apostrophe_empties (front : Bytes) (first : Written) (rest : List Spaced) (gap before after : Bytes)
    (leading : ∀ c ∈ front, isSpace c = true) (some_blank : gap ≠ []) (blank : ∀ c ∈ gap, isSpace c = true)
    (clean : Unquoted before) (clean_after : Unquoted after) (few : rest.length + 2 < maxLineWords) :
    parseLine (front ++ (first.text ++ (rest.flatMap Spaced.text ++
        (gap ++ 0x22 :: (before ++ 0x27 :: (after ++ [0x22])))))) =
      first.value :: (rest.map fun spaced => spaced.word.value) ++ [[]] := by
  have apart : Apart (gap ++ 0x22 :: (before ++ 0x27 :: (after ++ [0x22]))) := by
    obtain ⟨c,more,same⟩ := List.exists_cons_of_ne_nil some_blank
    subst same
    exact .inr ⟨c,_,rfl,blank c List.mem_cons_self⟩
  simp only [maxLineWords] at few
  have some_room : 126 - rest.length ≠ 0 := by omega
  have last : parseFrom (126 - rest.length) (some 0x22) (some []) [] = [[]] := by simp [parseFrom,some_room]
  rw [parse_front front first rest leading apart (by simp only [maxLineWords]; omega),parse_blanks _ gap blank,
    parse_opens some_room (by decide) none (Option.some_ne_none _).symm,parse_quoted some_room 0x22 before (by decide) clean,
    parse_opens some_room (by decide) (some 0x22) (by decide),parse_quoted some_room 0x27 after (by decide) clean_after,
    parse_opens some_room (by decide) (some 0x27) (by decide),last]

/-- `message 1 "don't"` -/
theorem apostrophe_empties_dont :
    let command : Written := .bare (text "message") (by decide) (List.all_iff_forall_prop.mp rfl)
    let slot : Spaced := ⟨text " ",by decide,List.forall_mem_singleton.mpr rfl,
      .bare (text "1") (by decide) (List.all_iff_forall_prop.mp rfl)⟩
    parseLine ([] ++ (command.text ++ ([slot].flatMap Spaced.text ++
        (text " " ++ 0x22 :: (text "don" ++ 0x27 :: (text "t" ++ [0x22])))))) =
      command.value :: ([slot].map fun spaced => spaced.word.value) ++ [[]] :=
  apostrophe_empties [] _ _ _ _ _ (List.forall_mem_nil _) (by decide) (List.forall_mem_singleton.mpr rfl) (by decide) (by decide)
    (by decide)

end LEDMessageBoard.Quoting
