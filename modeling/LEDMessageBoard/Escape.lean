import LEDMessageBoard.Context

/-! The escapes of a message text: `setMessage` trims a text to 250 bytes and then
replaces eleven two-byte escapes one after the other. -/
namespace LEDMessageBoard.Escape

/-- The scan of `replace_all`; `skip` counts the bytes of the last match still to drop. -/
def replaceFrom (search replacement : Bytes) : Nat → Bytes → Bytes
  | _, [] => []
  | skip + 1, _ :: rest => replaceFrom search replacement skip rest
  | 0, byte :: rest =>
    if search.isPrefixOf (byte :: rest) then
      replacement ++ replaceFrom search replacement (search.length - 1) rest
    else byte :: replaceFrom search replacement 0 rest

/-- `boost::replace_all`: every match, left to right and without overlap. -/
def replaceAll (input search replacement : Bytes) : Bytes :=
  if search = [] then input else replaceFrom search replacement 0 input

/-- The replacements of `setMessage`, in the order of the source. -/
def replacements : List (Bytes × Bytes) :=
  [(text "~H",[0xC0,0x02]),(text "~<",[0xC0,0x04]),(text "~>",[0xC0,0x06]),(text "~P",[0xC0,0x08]),
    (text "~x",[0xC0,0x0A]),(text "~S",[0xC0,0x0C]),(text "~O",[0xC0,0x0E]),(text "~o",[0xC0,0x10]),
    (text "~M",[0xC0,0x12]),(text "~Q",[0xC0,0x14]),(text "~n",[0xC0,0x16])]

def escape (message : Bytes) : Bytes :=
  replacements.foldl (fun message pair => replaceAll message pair.1 pair.2) message

def trim (message : Bytes) : Bytes :=
  if message.length > 250 then message.take 250 else message

private theorem replaceFrom_length (search replacement : Bytes) (same : search.length = replacement.length)
    (nonempty : search ≠ []) (skip : Nat) (input : Bytes) (enough : skip ≤ input.length) :
    (replaceFrom search replacement skip input).length = input.length - skip := by
  have positive := List.length_pos_iff.mpr nonempty
  fun_induction replaceFrom search replacement skip input with
  | case1 => simp
  | case2 skip byte rest ih =>
    rw [ih (by simpa using enough),List.length_cons]
    omega
  | case3 byte rest found ih =>
    have bound := (List.isPrefixOf_iff_prefix.mp found).length_le
    rw [List.length_cons] at bound
    rw [List.length_append,ih (by omega),List.length_cons]
    omega
  | case4 byte rest different ih =>
    rw [List.length_cons,ih (Nat.zero_le _),List.length_cons]
    omega

private theorem replaceAll_length (input search replacement : Bytes) (same : search.length = replacement.length) :
    (replaceAll input search replacement).length = input.length := by
  unfold replaceAll
  split
  next => rfl
  next nonempty => exact replaceFrom_length search replacement same nonempty 0 input (Nat.zero_le _)

private theorem replacements_same_length : ∀ pair ∈ replacements, pair.1.length = pair.2.length := by decide

theorem escape_length (message : Bytes) : (escape message).length = message.length := by
  have general : ∀ pairs : List (Bytes × Bytes), (∀ pair ∈ pairs, pair.1.length = pair.2.length) → ∀ message : Bytes,
      (pairs.foldl (fun message pair => replaceAll message pair.1 pair.2) message).length = message.length := by
    intro pairs
    induction pairs with
    | nil => exact fun _ _ => rfl
    | cons pair rest ih =>
      intro equal message
      rw [List.foldl_cons,ih (fun p member => equal p (by simp [member])),
        replaceAll_length _ _ _ (equal pair (by simp))]
  exact general replacements replacements_same_length message

theorem trim_eq (message : Bytes) : trim message = message.take 250 := by
  unfold trim
  split
  next => rfl
  next short => exact (List.take_of_length_le (by omega)).symm

theorem trim_length (message : Bytes) : (trim message).length ≤ 250 := by
  rw [trim_eq,List.length_take]
  omega

example : escape (text "~H~~S~+") = [0xC0,0x02,0x7E,0xC0,0x0C,0x7E,0x2B] := by decide

end LEDMessageBoard.Escape
