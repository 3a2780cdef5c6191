import LEDMessageBoard.LibCli

/-! What TAB offers for a line. -/
namespace LEDMessageBoard.Completion
open Config Cli LibCli

def filterCmds : List Bytes :=
  [text "begin",text "between",text "count",text "exclude",text "include",text "grep",text "egrep"]

/-- The test of a name against a word of the line, which may still be missing. -/
def offers (cli : CliDef) (word : Bytes) (c : CliCommand) : Bool := cli.sees c && sameCase c.command word word.length

/-- The command whose children a word that is not the last one leads to. -/
def entered (cli : CliDef) (commands : List CliCommand) (word : Bytes) : Option CliCommand :=
  (commands.zipIdx.find? fun (c,index) => offers cli word c && uniqueLen cli commands index c ≤ word.length).map Prod.fst

/-- The loop of `cli_get_completions` over the commands of one level, for the words from `i`
on. Behind a blank the last word is missing. -/
def completeFrom (cli : CliDef) (commands : List CliCommand) (missing : Bool) : List Bytes → List CliCommand
  | [] => if missing then commands.filter fun c => offers cli [] c else []
  | word :: rest =>
    if rest = [] ∧ missing = false then commands.filter fun c => offers cli word c
    else
      match entered cli commands word with
      | some c => completeFrom cli c.children missing rest
      | none => []

/-- The index of the last word that begins with `|`; 0 where there is none. -/
def lastFilter (words : List Bytes) : Nat :=
  ((words.zipIdx.filter fun (word,_) => isFilter word).map Prod.snd).getLastD 0

/-- `cli_get_completions`. No command of a session has completions of its own. -/
def completions (cli : CliDef) (commands : List CliCommand) (line : Bytes) : List Bytes :=
  let command := (cString line).dropWhile isSpace
  let words := parseLine command
  let missing := command.getLast?.all fun c => c = 0x20
  let numWords := words.length + if missing then 1 else 0
  let filter := lastFilter words
  if filter ≠ 0 then
    if filter < numWords - 1 then []
    else
      let word := words.getD (numWords - 1) []
      filterCmds.filter fun name => word.length = 0 ∨ word.length < name.length ∧ word.isPrefixOf name
  else ((completeFrom cli commands missing words).map CliCommand.command).take maxLineWords

/-- A name of small letters. -/
def Named (name : Bytes) : Prop := name ≠ [] ∧ ∀ c ∈ name, 0x61 ≤ c ∧ c ≤ 0x7A

private theorem letter_lower {c : UInt8} (letter : 0x61 ≤ c ∧ c ≤ 0x7A) : toLower c = c ∧ c ≠ 0x3F := by
  have low := UInt8.le_iff_toNat_le.mp letter.1
  have capital : ¬c ≤ 0x5A := by
    rw [UInt8.le_iff_toNat_le]
    simp at low ⊢
    omega
  refine ⟨by simp [toLower,capital],?_⟩
  intro same
  subst same
  simp at low

private theorem named_lower {name : Bytes} (named : Named name) : name.map toLower = name := by
  have each : ∀ c ∈ name, toLower c = id c := fun c member => (letter_lower (named.2 c member)).1
  rw [List.map_congr_left each,List.map_id]

section Prefixes

variable {a b : Bytes}

/-- Names that have as many bytes in common as the search compares are equal. -/
theorem eq_of_common (a b : Bytes) (same : a.take (commonLength a b) = b.take (commonLength a b)) : a = b := by
  fun_induction commonLength a b with
  | case1 as c bs ih =>
    rw [List.take_succ_cons,List.take_succ_cons] at same
    rw [ih (List.cons.inj same).2]
  | case2 c as d bs different =>
    exact absurd (List.cons.inj same).1 different
  | case3 a b short =>
    cases a with
    | nil =>
      cases b with
      | nil => rfl
      | cons d bs => simp at same
    | cons c as =>
      cases b with
      | nil => simp at same
      | cons d bs => exact (short c as d bs rfl rfl).elim

private theorem commonLength_comm (a b : Bytes) : commonLength a b = commonLength b a := by
  fun_induction commonLength a b with
  | case1 c as bs ih => rw [commonLength,if_pos rfl,ih]
  | case2 c as d bs different => rw [commonLength,if_neg fun same => different same.symm]
  | case3 a b short =>
    cases a with
    | nil => cases b <;> rfl
    | cons c as =>
      cases b with
      | nil => rfl
      | cons d bs => exact (short c as d bs rfl rfl).elim

private theorem sameCase_take {a b : Bytes} {n m : Nat} (same : sameCase a b n = true) (less : m ≤ n) :
    (a.take m).map toLower = (b.take m).map toLower := by
  have whole : (a.take n).map toLower = (b.take n).map toLower := of_decide_eq_true same
  have cut := congrArg (List.take m) whole
  simpa [List.map_take,List.take_take,Nat.min_eq_left less] using cut

private theorem le_foldl_max (lengths : List Nat) (start : Nat) :
    start ≤ lengths.foldl max start ∧ ∀ length ∈ lengths, length ≤ lengths.foldl max start := by
  induction lengths generalizing start with
  | nil => exact ⟨Nat.le_refl _,fun _ member => by cases member⟩
  | cons head rest ih =>
    obtain ⟨first,others⟩ := ih (max start head)
    rw [List.foldl_cons]
    refine ⟨by omega,?_⟩
    intro length member
    obtain same | member := List.mem_cons.mp member
    · subst same
      omega
    · exact others length member

end Prefixes

/-- A level of commands in which every name can be told from the others. -/
structure Level (commands : List CliCommand) : Prop where
  named : ∀ c ∈ commands, Named c.command
  distinct : (commands.map CliCommand.command).Nodup

section Level

variable {cli : CliDef} {commands : List CliCommand} {word : Bytes}

private theorem common_le_uniqueLen {i j : Nat} {c d : CliCommand} (at_j : commands[j]? = some d)
    (apart : i ≠ j) (sees_c : cli.sees c = true) (sees_d : cli.sees d = true) :
    commonLength c.command d.command ≤ uniqueLen cli commands i c := by
  have other : d ∈ (commands.eraseIdx i).filter fun p => cli.sees p := by
    refine List.mem_filter.mpr ⟨?_,sees_d⟩
    rw [List.mem_eraseIdx_iff_getElem?]
    exact ⟨j,Ne.symm apart,at_j⟩
  have bound := (le_foldl_max (((commands.eraseIdx i).filter fun p => cli.sees p).map fun p => commonLength c.command p.command) 1).2
    _ (List.mem_map_of_mem other)
  rw [List.foldl_map] at bound
  rw [uniqueLen,if_pos sees_c]
  exact bound

private theorem fits_unique (level : Level commands) {i j : Nat} {c d : CliCommand} (at_i : commands[i]? = some c)
    (at_j : commands[j]? = some d) (sees_c : cli.sees c = true) (sees_d : cli.sees d = true)
    (fits_c : cli.fits commands word i c = true) (fits_d : cli.fits commands word j d = true) : i = j := by
  by_contra apart
  obtain ⟨_,same_c,_⟩ := of_decide_eq_true fits_c
  obtain ⟨_,same_d,_⟩ := of_decide_eq_true fits_d
  have first := sameCase_take same_c (common_le_uniqueLen at_j apart sees_c sees_d)
  have less := common_le_uniqueLen at_i (Ne.symm apart) sees_d sees_c
  rw [commonLength_comm] at less
  have second := sameCase_take same_d less
  have named_c := level.named c (List.mem_of_getElem? at_i)
  have named_d := level.named d (List.mem_of_getElem? at_j)
  have lower_c : (c.command.take (commonLength c.command d.command)).map toLower =
      c.command.take (commonLength c.command d.command) := by
    rw [List.map_take,named_lower named_c]
  have lower_d : (d.command.take (commonLength c.command d.command)).map toLower =
      d.command.take (commonLength c.command d.command) := by
    rw [List.map_take,named_lower named_d]
  have same : c.command = d.command := by
    apply eq_of_common
    rw [← lower_c,← lower_d,first,second]
  obtain ⟨inside,_⟩ := List.getElem?_eq_some_iff.mp at_i
  apply apart
  apply (List.getElem?_inj (by rw [List.length_map]; exact inside) level.distinct).mp
  rw [List.getElem?_map,List.getElem?_map,at_i,at_j,Option.map_some,Option.map_some,same]

/-- A pair of `commands.zipIdx` that the search could take. -/
def Takes (cli : CliDef) (commands : List CliCommand) (word : Bytes) (pair : CliCommand × Nat) : Prop :=
  cli.sees pair.1 = true ∧ cli.fits commands word pair.2 pair.1 = true

/-- What the session does not see is passed over, outside the submodes of the configuration. -/
theorem selectFrom_passes (plain : cli.mode ≤ modeConfig) (againAny : Option CliCommand) (before rest : List (CliCommand × Nat))
    (none_taken : ∀ pair ∈ before, ¬Takes cli commands word pair) :
    selectFrom cli commands word none againAny (before ++ rest) = selectFrom cli commands word none againAny rest := by
  induction before with
  | nil => rfl
  | cons pair others ih =>
    obtain ⟨d,j⟩ := pair
    have tail := ih fun pair member => none_taken pair (List.mem_cons_of_mem _ member)
    have passed := none_taken (d,j) List.mem_cons_self
    rw [List.cons_append,selectFrom]
    split
    next => exact tail
    next fits =>
      have taken : cli.fits commands word j d = true := by simpa using fits
      have hidden : ¬cli.sees d = true := fun sees => passed ⟨sees,taken⟩
      have allowed : d.privilege ≤ cli.privilege := (of_decide_eq_true taken).1
      simp only [CliDef.sees,decide_eq_true_eq,not_and] at hidden
      have modes : ¬d.mode = modeAny ∧ ¬d.mode = cli.mode := by
        by_contra other
        exact hidden (by grind) allowed
      have shallow : ¬cli.mode > modeConfig := by omega
      rw [if_neg (by simp [modes.1,modes.2]),if_neg (by simp [shallow]),if_neg modes.1]
      exact tail

private theorem selectFrom_end (cli : CliDef) (commands : List CliCommand) (word : Bytes) (againAny : Option CliCommand) :
    selectFrom cli commands word none againAny [] = againAny.map fun c => (c,cli) := rfl

private theorem takes_unique (level : Level commands) {c d : CliCommand} {i j : Nat} (at_i : commands[i]? = some c)
    (taken : Takes cli commands word (c,i)) (member : (d,j) ∈ commands.zipIdx) (other : Takes cli commands word (d,j)) :
    j = i :=
  fits_unique level (List.mem_zipIdx_iff_getElem?.mp member) at_i other.1 taken.1 other.2 taken.2

private theorem select_taken (level : Level commands) (plain : cli.mode ≤ modeConfig) {c : CliCommand} {i : Nat}
    (at_i : commands[i]? = some c) (taken : Takes cli commands word (c,i)) : select cli commands word = some (c,cli) := by
  have member : (c,i) ∈ commands.zipIdx := List.mem_zipIdx_iff_getElem?.mpr at_i
  obtain ⟨before,after,whole⟩ := List.append_of_mem member
  have indices : (commands.zipIdx.map Prod.snd).Nodup := by
    rw [List.zipIdx_map_snd]
    exact List.nodup_range'
  rw [whole,List.map_append,List.map_cons,List.nodup_append] at indices
  have absent (pair : CliCommand × Nat) (inside : pair ∈ before ∨ pair ∈ after) : ¬Takes cli commands word pair := by
    intro takes
    have present : pair ∈ commands.zipIdx := by
      rw [whole]
      simp only [List.mem_append,List.mem_cons]
      grind
    have same := takes_unique level at_i taken present takes
    obtain front | rear := inside
    · exact indices.2.2 pair.2 (List.mem_map_of_mem front) i List.mem_cons_self same
    · have listed : pair.2 ∈ after.map Prod.snd := List.mem_map_of_mem rear
      rw [same] at listed
      exact (List.nodup_cons.mp indices.2.1).1 listed
  have tail (againAny : Option CliCommand) : selectFrom cli commands word none againAny after = againAny.map fun c => (c,cli) := by
    rw [← selectFrom_end cli commands word againAny,← selectFrom_passes plain againAny after [] fun pair inside =>
      absent pair (.inr inside),List.append_nil]
  obtain ⟨sees,fits⟩ := taken
  rw [select,whole,selectFrom_passes plain none before _ fun pair inside => absent pair (.inl inside),selectFrom,
    if_neg (not_not_intro fits)]
  obtain ⟨mode,_⟩ := of_decide_eq_true sees
  by_cases here : c.mode = cli.mode
  · rw [if_pos (.inl here)]
  · have any : c.mode = modeAny := mode.resolve_right here
    have shallow : ¬cli.mode > modeConfig := by omega
    rw [if_neg (by simp [here]),if_neg (by simp [shallow]),if_pos any,tail]
    rfl

private theorem common_take (a b : Bytes) : a.take (commonLength a b - 1) = b.take (commonLength a b - 1) := by
  fun_induction commonLength a b with
  | case1 as c bs ih =>
    have positive : 1 ≤ commonLength as bs := by
      unfold commonLength
      split
      next => split <;> omega
      next => exact Nat.le_refl 1
    have index : commonLength as bs + 1 - 1 = commonLength as bs - 1 + 1 := by omega
    rw [index,List.take_succ_cons,List.take_succ_cons,ih]
  | case2 => rfl
  | case3 => rfl

private theorem foldl_max_le (lengths : List Nat) (start bound : Nat) (first : start ≤ bound)
    (others : ∀ length ∈ lengths, length ≤ bound) :
    lengths.foldl max start ≤ bound := by
  induction lengths generalizing start with
  | nil => exact first
  | cons head rest ih =>
    have here := others head List.mem_cons_self
    exact ih (max start head) (by omega) fun length member => others length (List.mem_cons_of_mem _ member)

/-- What a word has to be to stand for a command: its name, or a beginning of it that no other
command has which the session sees. -/
def Abbreviates (cli : CliDef) (commands : List CliCommand) (word : Bytes) (c : CliCommand) : Prop :=
  word ≠ [] ∧ word.map toLower <+: c.command ∧
    (word.map toLower = c.command ∨
      ∀ d ∈ commands, cli.sees d = true → word.map toLower <+: d.command → d.command = c.command)

theorem sameCase_front {name : Bytes} (named : Named name) :
    sameCase name word word.length = true ↔ word.map toLower <+: name := by
  have lower : (name.take word.length).map toLower = name.take word.length := by
    rw [List.map_take,named_lower named]
  rw [sameCase,lower,List.take_length,decide_eq_true_iff,List.prefix_iff_eq_take,List.length_map,eq_comm]

private theorem uniqueLen_positive (commands : List CliCommand) (index : Nat) {c : CliCommand} (sees : cli.sees c = true) :
    1 ≤ uniqueLen cli commands index c := by
  rw [uniqueLen,if_pos sees,← List.foldl_map (f := fun p : CliCommand => commonLength c.command p.command) (g := max)]
  exact (le_foldl_max _ 1).1

private theorem uniqueLen_le {i : Nat} {c : CliCommand} (sees : cli.sees c = true) (bound : Nat) (positive : 1 ≤ bound)
    (others : ∀ j d, commands[j]? = some d → i ≠ j → cli.sees d = true → commonLength c.command d.command ≤ bound) :
    uniqueLen cli commands i c ≤ bound := by
  rw [uniqueLen,if_pos sees,← List.foldl_map (f := fun p : CliCommand => commonLength c.command p.command) (g := max)]
  apply foldl_max_le _ _ _ positive
  intro length member
  obtain ⟨d,inside,same⟩ := List.mem_map.mp member
  obtain ⟨listed,seen⟩ := List.mem_filter.mp inside
  obtain ⟨j,apart,at_j⟩ := List.mem_eraseIdx_iff_getElem?.mp listed
  rw [← same]
  exact others j d at_j (Ne.symm apart) seen

private theorem fits_iff (level : Level commands) {i : Nat} {c : CliCommand} (at_i : commands[i]? = some c)
    (sees : cli.sees c = true) :
    cli.fits commands word i c = true ↔ Abbreviates cli commands word c := by
  have named := level.named c (List.mem_of_getElem? at_i)
  have allowed : c.privilege ≤ cli.privilege := (of_decide_eq_true sees).2
  unfold CliDef.fits Abbreviates
  rw [decide_eq_true_iff,sameCase_front named]
  constructor
  · intro fits
    obtain ⟨_,same,front⟩ := fits
    have common : (c.command.take (uniqueLen cli commands i c)) = (word.take (uniqueLen cli commands i c)).map toLower := by
      rw [← of_decide_eq_true same,List.map_take,named_lower named]
    have positive := uniqueLen_positive commands i sees
    refine ⟨?_,front,?_⟩
    · intro empty
      rw [empty,List.take_nil,List.map_nil,List.take_eq_nil_iff] at common
      exact common.elim (by omega) named.1
    · by_cases long : uniqueLen cli commands i c ≤ word.length
      · refine .inr fun d member seen other => ?_
        obtain ⟨j,at_j⟩ := List.mem_iff_getElem?.mp member
        by_cases apart : i = j
        · rw [apart,at_j] at at_i
          rw [Option.some.inj at_i]
        · have less := common_le_uniqueLen at_j apart sees seen
          have shared : c.command.take word.length = d.command.take word.length := by
            have first := List.prefix_iff_eq_take.mp front
            have second := List.prefix_iff_eq_take.mp other
            rw [List.length_map] at first second
            rw [← first,← second]
          have cut := congrArg (List.take (commonLength c.command d.command)) shared
          rw [List.take_take,List.take_take,Nat.min_eq_left (by omega)] at cut
          exact (eq_of_common _ _ cut).symm
      · left
        rw [List.take_of_length_le (by omega : word.length ≤ _)] at common
        have size := congrArg List.length common
        rw [List.length_take,List.length_map] at size
        rw [← common]
        exact List.take_of_length_le (by omega)
  · intro abbreviates
    obtain ⟨some_word,front,alone⟩ := abbreviates
    have positive : 1 ≤ word.length := List.length_pos_iff.mpr some_word
    refine ⟨allowed,?_,front⟩
    obtain whole | alone := alone
    · apply decide_eq_true
      rw [List.map_take,List.map_take,whole,named_lower named]
    · have long : uniqueLen cli commands i c ≤ word.length := by
        apply uniqueLen_le sees _ positive
        intro j d at_j apart seen
        by_contra more
        have shared := congrArg (List.take word.length) (common_take c.command d.command)
        rw [List.take_take,List.take_take,Nat.min_eq_left (by omega)] at shared
        have other : word.map toLower <+: d.command := by
          have first := List.prefix_iff_eq_take.mp front
          rw [List.length_map,shared] at first
          rw [first]
          exact List.take_prefix _ _
        have same := alone d (List.mem_of_getElem? at_j) seen other
        obtain ⟨inside,_⟩ := List.getElem?_eq_some_iff.mp at_i
        apply apart
        apply (List.getElem?_inj (by rw [List.length_map]; exact inside) level.distinct).mp
        rw [List.getElem?_map,List.getElem?_map,at_i,at_j,Option.map_some,Option.map_some,same]
      exact decide_eq_true (sameCase_take ((sameCase_front named).mpr front) long)

/-- The search takes a command exactly if the session sees it and the word stands for it. -/
theorem select_iff (level : Level commands) (plain : cli.mode ≤ modeConfig) (c : CliCommand) (after : CliDef) :
    select cli commands word = some (c,after) ↔
      after = cli ∧ c ∈ commands ∧ cli.sees c = true ∧ Abbreviates cli commands word c := by
  constructor
  · intro found
    by_cases taken : ∃ pair ∈ commands.zipIdx, Takes cli commands word pair
    · obtain ⟨⟨d,j⟩,member,takes⟩ := taken
      have at_j := List.mem_zipIdx_iff_getElem?.mp member
      rw [select_taken level plain at_j takes] at found
      have pair := Option.some.inj found
      have command : d = c := congrArg Prod.fst pair
      subst command
      exact ⟨(congrArg Prod.snd pair).symm,List.mem_of_getElem? at_j,takes.1,(fits_iff level at_j takes.1).mp takes.2⟩
    · have passed := selectFrom_passes plain none commands.zipIdx [] fun pair member takes => taken ⟨pair,member,takes⟩
      rw [List.append_nil] at passed
      rw [select,passed] at found
      cases found
  · intro stands
    obtain ⟨same,member,sees,abbreviates⟩ := stands
    subst same
    obtain ⟨i,at_i⟩ := List.mem_iff_getElem?.mp member
    exact select_taken level plain at_i ⟨sees,(fits_iff level at_i sees).mpr abbreviates⟩

private theorem offers_front {c : CliCommand} (offered : offers cli word c = true) :
    cli.sees c = true ∧ word.map toLower = (c.command.take word.length).map toLower := by
  obtain ⟨sees,same⟩ := Bool.and_eq_true_iff.mp offered
  have whole : (c.command.take word.length).map toLower = (word.take word.length).map toLower := of_decide_eq_true same
  rw [List.take_length] at whole
  exact ⟨sees,whole.symm⟩

/-- The way TAB goes down the commands is the way of the search. -/
theorem entered_takes {c : CliCommand} (found : entered cli commands word = some c) :
    ∃ i, commands[i]? = some c ∧ Takes cli commands word (c,i) ∧ offers cli word c = true ∧ word ≠ [] := by
  obtain ⟨pair,search,same⟩ := Option.map_eq_some_iff.mp found
  subst same
  have tested := List.find?_some search
  obtain ⟨offered,long⟩ := Bool.and_eq_true_iff.mp tested
  have bound := of_decide_eq_true long
  obtain ⟨sees,same⟩ := Bool.and_eq_true_iff.mp offered
  refine ⟨pair.2,List.mem_zipIdx_iff_getElem?.mp (List.mem_of_find?_eq_some search),⟨sees,?_⟩,offered,?_⟩
  · have cut : sameCase pair.1.command word (uniqueLen cli commands pair.2 pair.1) = true :=
      decide_eq_true (sameCase_take same bound)
    exact decide_eq_true ⟨(of_decide_eq_true sees).2,cut,same⟩
  · intro empty
    have positive := uniqueLen_positive commands pair.2 sees
    rw [empty,List.length_nil] at bound
    omega

private theorem name_takes {c : CliCommand} (member : c ∈ commands) (sees : cli.sees c = true) :
    ∃ i, commands[i]? = some c ∧ Takes cli commands c.command (c,i) := by
  obtain ⟨i,at_i⟩ := List.mem_iff_getElem?.mp member
  exact ⟨i,at_i,sees,decide_eq_true ⟨(of_decide_eq_true sees).2,decide_eq_true rfl,decide_eq_true rfl⟩⟩

theorem named_asks {name : Bytes} (around : Surroundings) (named : Named name) (some_word : word ≠ [])
    (front : word.map toLower = (name.take word.length).map toLower) : lastByte around word ≠ 0x3F := by
  have cut : (name.take word.length).map toLower = name.take word.length := by
    rw [List.map_take,named_lower named]
  rw [cut] at front
  intro asks
  have last : word.getLast some_word = 0x3F := by
    simpa [lastByte,List.getLast?_eq_some_getLast some_word] using asks
  have member : (0x3F : UInt8) ∈ word.map toLower :=
    List.mem_map.mpr ⟨_,List.getLast_mem some_word,by rw [last]; rfl⟩
  rw [front] at member
  exact (letter_lower (named.2 _ (List.mem_of_mem_take member))).2 rfl

end Level

inductive Levels : List CliCommand → Prop where
  | levels {commands : List CliCommand} (level : Level commands) (children : ∀ c ∈ commands, Levels c.children) :
    Levels commands

/-- What the search comes to at a command with no more words before the filters. -/
def atCommand (around : Surroundings) (filters : List (List Bytes)) (c : CliCommand) (name : Bytes) : Found :=
  match c.callback with
  | some found => callback around filters found ⟨name,[],[]⟩
  | none => .error

section Search

variable {cli : CliDef}

private theorem completeFrom_nil (cli : CliDef) (missing : Bool) (words : List Bytes) :
    completeFrom cli [] missing words = [] := by
  unfold completeFrom
  cases words with
  | nil => simp
  | cons word rest => simp [entered]

private theorem atCommand_settles (around : Surroundings) (filters : List (List Bytes)) (c : CliCommand) (name : Bytes) :
    atCommand around filters c name ≠ .errorArg := by
  unfold atCommand callback
  split
  next =>
    split
    all_goals exact nofun
  next => exact nofun

private theorem findCommand_last (around : Surroundings) (filters : List (List Bytes)) {commands : List CliCommand}
    (level : Level commands) (plain : cli.mode ≤ modeConfig) (path : Bytes) {c : CliCommand} (member : c ∈ commands)
    (sees : cli.sees c = true) :
    ∃ name, findCommand around filters cli commands path 1 [c.command] = atCommand around filters c name := by
  obtain ⟨i,at_i,taken⟩ := name_takes member sees
  have named := level.named c member
  have asks : lastByte around c.command ≠ 0x3F := named_asks around named named.1 (by rw [List.take_length])
  refine ⟨if path = [] then c.command else path ++ [0x20] ++ c.command,?_⟩
  rw [findCommand,if_neg asks,select_taken level plain at_i taken]
  unfold atCommand
  dsimp only
  split
  next => cases c.callback <;> rfl
  next =>
    rw [if_pos rfl]
    cases c.callback <;> rfl

private theorem completeFrom_sees (missing : Bool) (words : List Bytes) (commands : List CliCommand) (c : CliCommand)
    (offered : c ∈ completeFrom cli commands missing words) : cli.sees c = true := by
  induction words generalizing commands with
  | nil =>
    unfold completeFrom at offered
    split at offered
    next => exact (offers_front (List.mem_filter.mp offered).2).1
    next => cases offered
  | cons word rest ih =>
    unfold completeFrom at offered
    split at offered
    next => exact (offers_front (List.mem_filter.mp offered).2).1
    next =>
      split at offered
      next parent _ => exact ih parent.children offered
      next => cases offered

private theorem found_settled {found result other : Found} (settles : result ≠ .errorArg) :
    found = result → (match found with
      | .errorArg => other
      | result => result) = result := by
  intro same
  subst same
  split
  next settled => exact absurd rfl settles
  next => rfl

/-- Every command that TAB offers is where the search goes for the completed line. -/
theorem offered_found (around : Surroundings) (filters : List (List Bytes)) (plain : cli.mode ≤ modeConfig) (missing : Bool)
    (words : List Bytes) (commands : List CliCommand) (levels : Levels commands) (path : Bytes) (c : CliCommand)
    (offered : c ∈ completeFrom cli commands missing words) :
    ∃ before, before <+: words ∧ words.length = before.length + (if missing then 0 else 1) ∧ ∃ name,
      findCommand around filters cli commands path (before.length + 1) (before ++ [c.command]) =
        atCommand around filters c name := by
  induction words generalizing commands path with
  | nil =>
    obtain ⟨level,_⟩ := levels
    unfold completeFrom at offered
    split at offered
    next asked =>
      obtain ⟨member,seen⟩ := List.mem_filter.mp offered
      refine ⟨[],List.nil_prefix,by simp [asked],?_⟩
      exact findCommand_last around filters level plain path member (offers_front seen).1
    next => cases offered
  | cons word rest ih =>
    obtain ⟨level,children⟩ := levels
    unfold completeFrom at offered
    split at offered
    next last =>
      obtain ⟨member,seen⟩ := List.mem_filter.mp offered
      refine ⟨[],List.nil_prefix,by simp [last.1,last.2],?_⟩
      exact findCommand_last around filters level plain path member (offers_front seen).1
    next more =>
      cases found : entered cli commands word with
      | none => simp [found] at offered
      | some parent =>
        rw [found] at offered
        dsimp only at offered
        obtain ⟨i,at_i,taken,seen,some_word⟩ := entered_takes found
        have member := List.mem_of_getElem? at_i
        let name := if path = [] then parent.command else path ++ [0x20] ++ parent.command
        obtain ⟨before,front,count,last,below⟩ := ih parent.children (children parent member) name offered
        have asks := named_asks around (level.named parent member) some_word (offers_front seen).2
        refine ⟨word :: before,List.cons_prefix_cons.mpr ⟨rfl,front⟩,by simp only [List.length_cons]; omega,last,?_⟩
        rw [List.cons_append,findCommand,if_neg asks,select_taken level plain at_i taken]
        cases kids : parent.children with
        | nil =>
          rw [kids,completeFrom_nil] at offered
          cases offered
        | cons child others =>
          have counted : ¬(word :: before).length + 1 = 1 := by simp
          have less : (word :: before).length + 1 - 1 = before.length + 1 := by simp
          rw [kids] at below
          simp only [kids,counted,if_false,less]
          exact found_settled (atCommand_settles around filters c last) below

private theorem filters_offer_nothing (word : Bytes) (filter : isFilter word = true) (name : Bytes)
    (member : name ∈ filterCmds) :
    word.isPrefixOf name = false := by
  cases word with
  | nil => cases filter
  | cons c rest =>
    have bar : c = 0x7C := by simpa [isFilter] using filter
    subst bar
    have each : ∀ name ∈ filterCmds, name.head? ≠ some 0x7C := by decide
    have other := each name member
    cases name with
    | nil => rfl
    | cons d others =>
      have apart : ¬(0x7C : UInt8) = d := fun same => other (by rw [← same]; rfl)
      simp [List.isPrefixOf,apart]

private theorem lastFilter_isFilter (words : List Bytes) (found : lastFilter words ≠ 0) :
    ∃ word, words[lastFilter words]? = some word ∧ isFilter word = true := by
  unfold lastFilter at found ⊢
  cases held : (words.zipIdx.filter fun (word,_) => isFilter word).map Prod.snd with
  | nil =>
    rw [held] at found
    exact absurd rfl found
  | cons first others =>
    have member : (first :: others).getLastD 0 ∈ (words.zipIdx.filter fun (word,_) => isFilter word).map Prod.snd := by
      rw [held,List.getLastD_cons]
      exact List.getLastD_mem_cons
    obtain ⟨⟨word,index⟩,listed,same⟩ := List.mem_map.mp member
    obtain ⟨inside,filter⟩ := List.mem_filter.mp listed
    rw [← same]
    exact ⟨word,List.mem_zipIdx_iff_getElem?.mp inside,filter⟩

/-- TAB only offers names of commands, never those of filters. -/
theorem completions_commands (commands : List CliCommand) (line name : Bytes) (offered : name ∈ completions cli commands line) :
    ∃ c missing, name = c.command ∧
      c ∈ completeFrom cli commands missing (parseLine ((cString line).dropWhile isSpace)) := by
  unfold completions at offered
  dsimp only at offered
  generalize parseLine ((cString line).dropWhile isSpace) = words at offered ⊢
  generalize (((cString line).dropWhile isSpace).getLast?.all fun c => decide (c = 0x20)) = missing at offered
  by_cases filtered : lastFilter words ≠ 0
  · rw [if_pos filtered] at offered
    obtain ⟨word,at_filter,filter⟩ := lastFilter_isFilter words filtered
    obtain ⟨inside,_⟩ := List.getElem?_eq_some_iff.mp at_filter
    by_cases early : lastFilter words < words.length + (if missing then 1 else 0) - 1
    · rw [if_pos early] at offered
      cases offered
    · rw [if_neg early] at offered
      obtain ⟨member,before⟩ := List.mem_filter.mp offered
      have index : words.length + (if missing then 1 else 0) - 1 = lastFilter words := by
        cases missing <;> simp only [if_true,if_false,Bool.false_eq_true] at early ⊢ <;> omega
      rw [index,List.getD_eq_getElem?_getD,at_filter,Option.getD_some] at before
      obtain empty | ⟨_,front⟩ := of_decide_eq_true before
      · rw [List.eq_nil_of_length_eq_zero empty] at filter
        cases filter
      · rw [filters_offer_nothing word filter name member] at front
        cases front
  · rw [if_neg filtered] at offered
    obtain ⟨c,member,same⟩ := List.mem_map.mp (List.mem_of_mem_take offered)
    exact ⟨c,missing,same.symm,member⟩

end Search

theorem Levels.flat {commands : List CliCommand} (level : Level commands) (bottom : ∀ c ∈ commands, c.children = []) :
    Levels commands := by
  refine .levels level ?_
  intro c member
  rw [bottom c member]
  exact .levels ⟨nofun,List.nodup_nil⟩ nofun

instance (name : Bytes) : Decidable (Named name) :=
  inferInstanceAs (Decidable (name ≠ [] ∧ ∀ c ∈ name, 0x61 ≤ c ∧ c ≤ 0x7A))

theorem registered_levels : Levels registered := by
  refine .levels ⟨by decide +kernel,by decide +kernel⟩ ?_
  have below : ∀ c ∈ registered, (∀ child ∈ c.children, Named child.command) ∧
      (c.children.map CliCommand.command).Nodup ∧ ∀ child ∈ c.children, child.children.length = 0 := by decide +kernel
  intro c member
  obtain ⟨named,distinct,bottom⟩ := below c member
  exact .flat ⟨named,distinct⟩ fun child inside => List.eq_nil_of_length_eq_zero (bottom child inside)

/-- The commands that a session has in one place: all, or those below one of them. -/
def Choice (commands : List CliCommand) : Prop := commands = registered ∨ ∃ c ∈ registered, commands = c.children

theorem Choice.level {commands : List CliCommand} (choice : Choice commands) : Level commands := by
  obtain ⟨level,children⟩ := registered_levels
  obtain top | ⟨c,member,below⟩ := choice
  · rw [top]
    exact level
  · rw [below]
    obtain ⟨level,_⟩ := children c member
    exact level

/-- A word of a line stands for a command exactly if the session sees the command and the
word is its name, or a beginning of its name and of no other that the session sees. -/
theorem abbreviation_found (cli : CliDef) (plain : cli.mode ≤ modeConfig) (commands : List CliCommand)
    (choice : Choice commands) (word : Bytes) (c : CliCommand) (after : CliDef) :
    select cli commands word = some (c,after) ↔
      after = cli ∧ c ∈ commands ∧ cli.sees c = true ∧ Abbreviates cli commands word c :=
  select_iff choice.level plain c after

/-- `e` stands for `exit` in the configuration mode, where `enable` is not seen. -/
theorem abbreviation_found_exit :
    (modeConfig ≤ modeConfig ∧ Choice registered) ∧
      (select ⟨15,modeConfig⟩ registered (text "e") = some (leaf "exit" (.builtin .exit) unprivileged modeAny,⟨15,modeConfig⟩) ↔
        (⟨15,modeConfig⟩ : CliDef) = ⟨15,modeConfig⟩ ∧ leaf "exit" (.builtin .exit) unprivileged modeAny ∈ registered ∧
          CliDef.sees ⟨15,modeConfig⟩ (leaf "exit" (.builtin .exit) unprivileged modeAny) = true ∧
          Abbreviates ⟨15,modeConfig⟩ registered (text "e") (leaf "exit" (.builtin .exit) unprivileged modeAny)) :=
  ⟨⟨by decide,.inl rfl⟩,abbreviation_found ⟨15,modeConfig⟩ (by decide) registered (.inl rfl) (text "e") _ _⟩

/-- What TAB offers in a session is what the search takes once it is typed in full. -/
theorem completions_found (cli : CliDef) (plain : cli.mode ≤ modeConfig) (line name : Bytes)
    (offered : name ∈ completions cli registered line) :
    ∃ c before, name = c.command ∧ cli.sees c = true ∧ before <+: parseLine ((cString line).dropWhile isSpace) ∧
      (parseLine ((cString line).dropWhile isSpace)).length ≤ before.length + 1 ∧
      ∀ around filters, ∃ path, findCommand around filters cli registered [] (before.length + 1) (before ++ [name]) =
        atCommand around filters c path := by
  obtain ⟨c,missing,same,member⟩ := completions_commands registered line name offered
  have found (around : Surroundings) (filters : List (List Bytes)) :=
    offered_found around filters plain missing _ registered registered_levels [] c member
  let around : Surroundings := ⟨0,fun _ => false⟩
  obtain ⟨before,front,count,_⟩ := found around []
  refine ⟨c,before,same,completeFrom_sees missing _ registered c member,front,by rw [count]; split <;> omega,?_⟩
  intro around filters
  obtain ⟨other,other_front,other_count,path,reached⟩ := found around filters
  have equal : other = before := by
    apply List.IsPrefix.eq_of_length_le (List.prefix_of_prefix_length_le other_front front (by omega)) (by omega)
  rw [same,← equal]
  exact ⟨path,reached⟩

/-- `set st` and TAB. -/
theorem completions_found_startupmsg :
    ∃ c before, text "startupmsg" = c.command ∧ CliDef.sees ⟨15,modeExec⟩ c = true ∧
      before <+: parseLine ((cString (text "set st")).dropWhile isSpace) ∧
      (parseLine ((cString (text "set st")).dropWhile isSpace)).length ≤ before.length + 1 ∧
      ∀ around filters, ∃ path,
        findCommand around filters ⟨15,modeExec⟩ registered [] (before.length + 1) (before ++ [text "startupmsg"]) =
          atCommand around filters c path :=
  completions_found ⟨15,modeExec⟩ (by decide) (text "set st") (text "startupmsg") (by decide +kernel)

end LEDMessageBoard.Completion
