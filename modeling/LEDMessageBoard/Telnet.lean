import LEDMessageBoard.Context
import LEDMessageBoard.General.Transducer

/-! What `cli_loop` takes out of the bytes of a client before it looks at a key: the
options of the telnet protocol and the escape sequences of the arrow keys. -/
namespace LEDMessageBoard.Telnet
open General General.Transducer

def ctrl (letter : UInt8) : UInt8 := letter - 0x40

/-- `is_telnet_option` and `esc`, which outlive a line. -/
structure Decoder where
  isTelnetOption : UInt8
  esc : UInt8
deriving DecidableEq, Repr

def Decoder.rest : Decoder := ⟨0,0⟩

/-- An arrow as the control code of its key. Any other letter becomes a NUL, which is
passed over. -/
def arrow (c : UInt8) : Bytes :=
  if c = 0x41 then [ctrl 0x50]
  else if c = 0x42 then [ctrl 0x4E]
  else if c = 0x43 then [ctrl 0x46]
  else if c = 0x44 then [ctrl 0x42]
  else []

/-- One byte of the client, up to the test for `'\r'`; what comes out is looked at as a key. -/
def decode (d : Decoder) (c : UInt8) : Decoder × Bytes :=
  if c = 255 ∧ d.isTelnetOption = 0 then ({d with isTelnetOption := 1},[])
  else if d.isTelnetOption ≠ 0 ∧ 251 ≤ c ∧ c ≤ 254 then ({d with isTelnetOption := c},[])
  else if d.isTelnetOption ≠ 0 ∧ c ≠ 255 then ({d with isTelnetOption := 0},[])
  else
    let d := {d with isTelnetOption := 0}
    if d.esc = 0x5B then ({d with esc := 0},arrow c)
    else if d.esc ≠ 0 then ({d with esc := if c = 0x5B then c else 0},[])
    else if c = 0 ∨ c = 0x0A then (d,[])
    else if c = 27 then ({d with esc := 1},[])
    else (d,[c])

def options (isTelnetOption c : UInt8) : UInt8 × Bytes :=
  if c = 255 ∧ isTelnetOption = 0 then (1,[])
  else if isTelnetOption ≠ 0 ∧ 251 ≤ c ∧ c ≤ 254 then (c,[])
  else if isTelnetOption ≠ 0 ∧ c ≠ 255 then (0,[])
  else (0,[c])

def escapes (esc c : UInt8) : UInt8 × Bytes :=
  if esc = 0x5B then (0,arrow c)
  else if esc ≠ 0 then (if c = 0x5B then c else 0,[])
  else if c = 0 ∨ c = 0x0A then (esc,[])
  else if c = 27 then (1,[])
  else (esc,[c])

/-- The loop treats the escape sequences behind the telnet options. -/
theorem decode_cascade (d : Decoder) (c : UInt8) :
    decode d c = (⟨(cascade options escapes (d.isTelnetOption,d.esc) c).1.1,
      (cascade options escapes (d.isTelnetOption,d.esc) c).1.2⟩,(cascade options escapes (d.isTelnetOption,d.esc) c).2) := by
  obtain ⟨isTelnetOption,esc⟩ := d
  unfold decode options cascade
  dsimp only
  split
  next => rfl
  next =>
    split
    next => rfl
    next =>
      split
      next => rfl
      next =>
        simp only [emit_cons,emit_nil,List.append_nil,escapes]
        split
        next => rfl
        next =>
          split
          next => rfl
          next =>
            split
            next => rfl
            next => split <;> rfl

private theorem emit_decode (d : Decoder) (stream : Bytes) :
    emit decode d stream =
      (⟨(emit options d.isTelnetOption stream).1,(emit escapes d.esc (emit options d.isTelnetOption stream).2).1⟩,
        (emit escapes d.esc (emit options d.isTelnetOption stream).2).2) := by
  have layered (d : Decoder) (stream : Bytes) :
      emit decode d stream = (⟨(emit (cascade options escapes) (d.isTelnetOption,d.esc) stream).1.1,
        (emit (cascade options escapes) (d.isTelnetOption,d.esc) stream).1.2⟩,
        (emit (cascade options escapes) (d.isTelnetOption,d.esc) stream).2) := by
    induction stream generalizing d with
    | nil => rfl
    | cons c rest ih =>
      rw [emit_cons,emit_cons,decode_cascade]
      dsimp only
      rw [ih]
  rw [layered,emit_cascade]

/-- WILL, WONT, DO or DONT -/
abbrev Verb : Type := {c : UInt8 // 251 ≤ c ∧ c ≤ 254}

/-- What a telnet stream is made of, with the bytes that stand between IAC and the end
of an option. -/
inductive Item where
  | data (c : UInt8) (plain : c ≠ 255)
  /-- IAC IAC, the data byte 255. -/
  | doubled (verbs : List Verb)
  | option (verbs : List Verb) (c : UInt8) (ends : c < 251)

def Item.wire : Item → Bytes
  | .data c _ => [c]
  | .doubled verbs => 255 :: verbs.map Subtype.val ++ [255]
  | .option verbs c _ => 255 :: verbs.map Subtype.val ++ [c]

def Item.content : Item → Bytes
  | .data c _ => [c]
  | .doubled _ => [255]
  | .option _ _ _ => []

private theorem emit_verbs (verbs : List Verb) (isTelnetOption : UInt8) (begun : isTelnetOption ≠ 0) (rest : Bytes) :
    ∃ next, next ≠ 0 ∧ emit options isTelnetOption (verbs.map Subtype.val ++ rest) = emit options next rest := by
  induction verbs generalizing isTelnetOption with
  | nil => exact ⟨isTelnetOption,begun,rfl⟩
  | cons verb verbs ih =>
    obtain ⟨c,low,high⟩ := verb
    have positive : c ≠ 0 := by
      intro zero
      rw [zero] at low
      exact absurd low (by decide)
    obtain ⟨next,nonzero,same⟩ := ih c positive
    refine ⟨next,nonzero,?_⟩
    have different : ¬(c = 255 ∧ isTelnetOption = 0) := fun both => begun both.2
    rw [List.map_cons,List.cons_append,emit_cons,options]
    rw [if_neg different,if_pos ⟨begun,low,high⟩,same]
    rfl

private theorem emit_item (item : Item) (rest : Bytes) :
    emit options 0 (item.wire ++ rest) = ((emit options 0 rest).1,item.content ++ (emit options 0 rest).2) := by
  have opened (verbs : List Verb) (last : UInt8) :
      ∃ next, next ≠ 0 ∧ emit options 0 (255 :: verbs.map Subtype.val ++ [last] ++ rest) =
        emit options next (last :: rest) := by
    obtain ⟨next,nonzero,same⟩ := emit_verbs verbs 1 (by decide) (last :: rest)
    refine ⟨next,nonzero,?_⟩
    rw [← same,List.append_assoc]
    rfl
  cases item with
  | data c plain => simp [Item.wire,Item.content,emit_cons,options,plain]
  | doubled verbs =>
    obtain ⟨next,nonzero,same⟩ := opened verbs 255
    rw [Item.wire,same,emit_cons,options]
    simp [nonzero,Item.content]
  | option verbs c ends =>
    obtain ⟨next,nonzero,same⟩ := opened verbs c
    have below : ¬(251 ≤ c ∧ c ≤ 254) := fun inside => absurd inside.1 (UInt8.not_le.mpr ends)
    have different : c ≠ 255 := by
      intro equal
      rw [equal] at ends
      exact absurd ends (by decide)
    rw [Item.wire,same,emit_cons,options]
    simp [nonzero,below,different,Item.content]

private theorem emit_items (items : List Item) :
    emit options 0 (items.flatMap Item.wire) = (0,items.flatMap Item.content) := by
  induction items with
  | nil => rfl
  | cons item rest ih => rw [List.flatMap_cons,emit_item,ih,List.flatMap_cons]

/-- What is left open at the start of a stream: nothing, or IAC and some verbs. -/
theorem items_of_rest (stream : Bytes) (verbs : Option (List Verb)) (isTelnetOption : UInt8)
    (open_iff : isTelnetOption ≠ 0 ↔ verbs.isSome) (closed : (emit options isTelnetOption stream).1 = 0) :
    ∃ items : List Item,
      (verbs.elim [] fun verbs => 255 :: verbs.map Subtype.val) ++ stream = items.flatMap Item.wire := by
  induction stream generalizing verbs isTelnetOption with
  | nil =>
    cases verbs with
    | none => exact ⟨[],rfl⟩
    | some verbs => exact absurd closed (open_iff.mpr rfl)
  | cons c rest ih =>
    rw [emit_cons] at closed
    unfold options at closed
    cases verbs with
    | none =>
      have begun : isTelnetOption = 0 := by simpa using open_iff
      subst begun
      by_cases command : c = 255
      · rw [if_pos ⟨command,rfl⟩] at closed
        obtain ⟨items,same⟩ := ih (some []) 1 (by decide) closed
        exact ⟨items,by rw [← same,command]; rfl⟩
      · rw [if_neg (by simp [command]),if_neg (by simp),if_neg (by simp)] at closed
        obtain ⟨items,same⟩ := ih none 0 (by decide) closed
        exact ⟨.data c command :: items,by rw [List.flatMap_cons,← same]; rfl⟩
    | some verbs =>
      have begun : isTelnetOption ≠ 0 := open_iff.mpr rfl
      rw [if_neg (by simp [begun])] at closed
      by_cases verb : 251 ≤ c ∧ c ≤ 254
      · rw [if_pos ⟨begun,verb⟩] at closed
        have positive : c ≠ 0 := by
          intro zero
          rw [zero] at verb
          exact absurd verb (by decide)
        obtain ⟨items,same⟩ := ih (some (verbs ++ [⟨c,verb⟩])) c (by simp [positive]) closed
        exact ⟨items,by rw [← same]; simp⟩
      · rw [if_neg (by simp [begun,verb])] at closed
        by_cases doubled : c = 255
        · rw [if_neg (by simp [doubled])] at closed
          obtain ⟨items,same⟩ := ih none 0 (by decide) closed
          exact ⟨.doubled verbs :: items,by rw [List.flatMap_cons,← same]; simp [Item.wire,doubled]⟩
        · rw [if_pos ⟨begun,doubled⟩] at closed
          obtain ⟨items,same⟩ := ih none 0 (by decide) closed
          have ends : c < 251 := by
            rw [UInt8.lt_iff_toNat_lt]
            rw [UInt8.le_iff_toNat_le,UInt8.le_iff_toNat_le] at verb
            rw [← UInt8.toNat_inj] at doubled
            have bound := c.toNat_lt
            change ¬(251 ≤ c.toNat ∧ c.toNat ≤ 254) at verb
            change ¬c.toNat = 255 at doubled
            change c.toNat < 251
            omega
          exact ⟨.option verbs c ends :: items,by rw [List.flatMap_cons,← same]; simp [Item.wire]⟩

/-- A stream leaves no option open exactly if it is a sequence of data bytes, doubled
255s and options, and then the data is what comes out. -/
theorem options_parse (stream content : Bytes) :
    emit options 0 stream = (0,content) ↔
      ∃ items : List Item, stream = items.flatMap Item.wire ∧ content = items.flatMap Item.content := by
  constructor
  · intro parsed
    obtain ⟨items,same⟩ := items_of_rest stream none 0 (by decide) (by rw [parsed])
    refine ⟨items,same,?_⟩
    have again := emit_items items
    rw [← same] at again
    rw [Option.elim_none,List.nil_append,parsed] at again
    exact congrArg Prod.snd again
  · intro parts
    obtain ⟨items,wire,out⟩ := parts
    rw [wire,out,emit_items]

/-- A byte that the escape sequences leave alone. -/
def Typed (c : UInt8) : Prop := c ≠ 0 ∧ c ≠ 0x0A ∧ c ≠ 27

private theorem emit_typed (keys : Bytes) (typed : ∀ c ∈ keys, Typed c) : emit escapes 0 keys = (0,keys) := by
  induction keys with
  | nil => rfl
  | cons c rest ih =>
    obtain ⟨nul,newline,esc⟩ := typed c (by simp)
    rw [emit_cons,escapes]
    simp [nul,newline,esc,ih (fun other member => typed other (by simp [member]))]

/-- Whatever options a telnet client puts between its keys, and however it sends a key
255, the loop sees the keys and nothing else. -/
theorem decode_typed (items : List Item) (typed : ∀ c ∈ items.flatMap Item.content, Typed c) :
    emit decode .rest (items.flatMap Item.wire) = (.rest,items.flatMap Item.content) := by
  rw [emit_decode]
  change ((⟨(emit options 0 _).1,(emit escapes 0 (emit options 0 _).2).1⟩ : Decoder),_) = _
  simp only [Decoder.rest,emit_items,emit_typed _ typed]

/-- What the data bytes are made of, as far as the loop gets to see it. -/
inductive Stroke where
  | key (c : UInt8) (typed : Typed c)
  /-- A NUL or a newline. -/
  | passed (c : UInt8) (blank : c = 0 ∨ c = 0x0A)
  | arrow (letter : UInt8)
  /-- An escape without `[`, which takes the next byte with it. -/
  | broken (c : UInt8) (other : c ≠ 0x5B)

def Stroke.wire : Stroke → Bytes
  | .key c _ => [c]
  | .passed c _ => [c]
  | .arrow letter => [27,0x5B,letter]
  | .broken c _ => [27,c]

def Stroke.content : Stroke → Bytes
  | .key c _ => [c]
  | .arrow letter => Telnet.arrow letter
  | _ => []

private theorem emit_stroke (stroke : Stroke) (rest : Bytes) :
    emit escapes 0 (stroke.wire ++ rest) = ((emit escapes 0 rest).1,stroke.content ++ (emit escapes 0 rest).2) := by
  cases stroke with
  | key c typed =>
    obtain ⟨nul,newline,esc⟩ := typed
    simp [Stroke.wire,Stroke.content,emit_cons,escapes,nul,newline,esc]
  | passed c blank => simp [Stroke.wire,Stroke.content,emit_cons,escapes,blank]
  | arrow letter => rfl
  | broken c other =>
    have begun : escapes 0 27 = (1,[]) := rfl
    have fails : escapes 1 c = (0,[]) := by simp [escapes,other]
    rw [Stroke.wire,List.cons_append,emit_cons,begun,List.cons_append,emit_cons,fails]
    rfl

private theorem emit_strokes (strokes : List Stroke) :
    emit escapes 0 (strokes.flatMap Stroke.wire) = (0,strokes.flatMap Stroke.content) := by
  induction strokes with
  | nil => rfl
  | cons stroke rest ih => rw [List.flatMap_cons,emit_stroke,ih,List.flatMap_cons]

/-- What has been read of an escape sequence. -/
inductive Begun : UInt8 → Bytes → Prop where
  | none : Begun 0 []
  | escape : Begun 1 [27]
  | bracket : Begun 0x5B [27,0x5B]

private theorem strokes_of_rest (stream : Bytes) {esc : UInt8} {front : Bytes} (begun : Begun esc front)
    (closed : (emit escapes esc stream).1 = 0) : ∃ strokes : List Stroke, front ++ stream = strokes.flatMap Stroke.wire := by
  induction stream generalizing esc front with
  | nil =>
    cases begun with
    | none => exact ⟨[],rfl⟩
    | escape => cases closed
    | bracket => cases closed
  | cons c rest ih =>
    rw [emit_cons] at closed
    have ended (stroke : Stroke) (wire : stroke.wire = front ++ [c]) (stops : (escapes esc c).1 = 0) :
        ∃ strokes : List Stroke, front ++ c :: rest = strokes.flatMap Stroke.wire := by
      rw [stops] at closed
      obtain ⟨strokes,same⟩ := ih .none closed
      refine ⟨stroke :: strokes,?_⟩
      rw [List.flatMap_cons,wire,← same,List.append_assoc]
      rfl
    cases begun with
    | none =>
      by_cases blank : c = 0 ∨ c = 0x0A
      · exact ended (.passed c blank) rfl (by simp [escapes,blank])
      · by_cases escape : c = 27
        · subst escape
          obtain ⟨strokes,same⟩ := ih .escape closed
          exact ⟨strokes,same⟩
        · obtain ⟨nul,newline⟩ := not_or.mp blank
          exact ended (.key c ⟨nul,newline,escape⟩) rfl (by simp [escapes,nul,newline,escape])
    | escape =>
      by_cases bracket : c = 0x5B
      · subst bracket
        obtain ⟨strokes,same⟩ := ih .bracket closed
        exact ⟨strokes,same⟩
      · exact ended (.broken c bracket) rfl (by simp [escapes,bracket])
    | bracket => exact ended (.arrow c) rfl rfl

/-- The streams that leave nothing open, and the keys that come out: telnet options around
data, and in the data keys, arrows and what is passed over. -/
theorem decode_parse (stream keys : Bytes) :
    emit decode .rest stream = (.rest,keys) ↔
      ∃ (items : List Item) (strokes : List Stroke), stream = items.flatMap Item.wire ∧
        items.flatMap Item.content = strokes.flatMap Stroke.wire ∧ keys = strokes.flatMap Stroke.content := by
  have layers := emit_decode .rest stream
  constructor
  · intro parsed
    rw [parsed] at layers
    obtain ⟨closed,out⟩ := Prod.mk.inj layers
    have option : (emit options 0 stream).1 = 0 := (congrArg Decoder.isTelnetOption closed).symm
    have escape : (emit escapes 0 (emit options 0 stream).2).1 = 0 := (congrArg Decoder.esc closed).symm
    obtain ⟨items,wire,content⟩ := (options_parse stream _).mp (Prod.ext option rfl)
    obtain ⟨strokes,data⟩ := strokes_of_rest _ .none escape
    rw [List.nil_append] at data
    refine ⟨items,strokes,wire,content.symm.trans data,?_⟩
    have typed : keys = (emit escapes 0 (emit options 0 stream).2).2 := out
    rw [typed,data,emit_strokes]
  · intro parts
    obtain ⟨items,strokes,wire,data,out⟩ := parts
    have option : emit options 0 stream = (0,items.flatMap Item.content) := by rw [wire,emit_items]
    rw [layers]
    change ((⟨(emit options 0 stream).1,(emit escapes 0 (emit options 0 stream).2).1⟩ : Decoder),_) = _
    simp only [Decoder.rest,option,data,emit_strokes,out]

end LEDMessageBoard.Telnet
