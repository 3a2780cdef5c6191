/-! Fixed-size buffers written by runs of elements, and long lists cut into padded
blocks. Nothing is lost when the blocks follow each other. -/
namespace LEDMessageBoard.General.Blocks

variable {α : Type}

def overwrite (data : List α) (start : Nat) (run : List α) : List α :=
  data.take start ++ run ++ data.drop (start + run.length)

theorem overwrite_nil (data : List α) (start : Nat) : overwrite data start [] = data := by
  simp [overwrite]

theorem overwrite_length (data : List α) (start : Nat) (run : List α)
    (inside : start + run.length ≤ data.length) : (overwrite data start run).length = data.length := by
  simp only [overwrite,List.length_append,List.length_take,List.length_drop]
  omega

theorem overwrite_set (data : List α) (start : Nat) (run : List α) (value : α)
    (inside : start + run.length < data.length) :
    (overwrite data start run).set (start + run.length) value = overwrite data start (run ++ [value]) := by
  have size : (data.take start ++ run).length = start + run.length := by
    simp only [List.length_append,List.length_take]
    omega
  obtain ⟨old,rest,split⟩ : ∃ old rest, data.drop (start + run.length) = old :: rest :=
    List.exists_cons_of_ne_nil (by simpa using inside)
  have rest_eq : data.drop (start + (run ++ [value]).length) = rest := by
    have dropped := congrArg List.tail split
    simpa [List.tail_drop,Nat.add_assoc] using dropped
  rw [overwrite,overwrite,List.set_append_right _ _ (by omega),size,split,rest_eq]
  simp

/-- The first `size` elements of `list ++ zero ++ zero ++ …`. -/
def padded (zero : α) (size : Nat) (list : List α) : List α :=
  list.take size ++ List.replicate (size - list.length) zero

@[simp] theorem padded_length (zero : α) (size : Nat) (list : List α) :
    (padded zero size list).length = size := by
  simp only [padded,List.length_append,List.length_take,List.length_replicate]
  omega

theorem padded_append (zero : α) (first second : Nat) (list : List α) :
    padded zero first list ++ padded zero second (list.drop first) = padded zero (first + second) list := by
  by_cases short : list.length ≤ first
  · have rest : list.drop first = [] := List.drop_eq_nil_of_le short
    have zeros : first - list.length + second = first + second - list.length := by omega
    simp only [padded,rest,List.take_of_length_le short,List.take_of_length_le (by omega : list.length ≤ first + second),
      List.take_nil,List.length_nil,List.nil_append,Nat.sub_zero,List.append_assoc,
      List.replicate_append_replicate,zeros]
  · have full : first - list.length = 0 := by omega
    have rest : second - (list.length - first) = first + second - list.length := by omega
    simp only [padded,full,List.replicate_zero,List.append_nil,List.length_drop,rest,
      List.take_add,List.append_assoc]

theorem padded_of_fits (zero : α) (size : Nat) (list : List α) (fits : list.length ≤ size) :
    padded zero size list = list ++ List.replicate (size - list.length) zero := by
  rw [padded,List.take_of_length_le fits]

theorem padded_getElem? (zero : α) (size : Nat) (list : List α) (i : Nat) :
    (padded zero size list)[i]? = if i < size then some (list[i]?.getD zero) else none := by
  unfold padded
  by_cases inside : i < list.length
  · by_cases fits : i < size
    · rw [List.getElem?_append_left (by simp; omega),List.getElem?_take_of_lt fits,if_pos fits]
      simp [inside]
    · rw [if_neg fits]
      exact List.getElem?_eq_none (by simp; omega)
  · have outside : list[i]? = none := List.getElem?_eq_none (by omega)
    rw [outside]
    by_cases fits : i < size
    · have zeros : i - min size list.length < size - list.length := by omega
      rw [List.getElem?_append_right (by simp; omega),if_pos fits,List.length_take,List.getElem?_replicate,if_pos zeros]
      rfl
    · rw [if_neg fits]
      exact List.getElem?_eq_none (by simp; omega)

theorem padded_slice (zero : α) (size : Nat) (list : List α) (start count : Nat) (inside : start + count ≤ size) :
    ((padded zero size list).drop start).take count = padded zero count (list.drop start) := by
  apply List.ext_getElem?
  intro i
  rw [padded_getElem?,List.getElem?_take,List.getElem?_drop,padded_getElem?,List.getElem?_drop]
  split
  next => rw [if_pos (by omega)]
  next => rfl

theorem padded_zeros (zero : α) (size : Nat) (list : List α) (count : Nat) :
    padded zero size (list ++ List.replicate count zero) = padded zero size list := by
  apply List.ext_getElem?
  intro i
  rw [padded_getElem?,padded_getElem?]
  congr 2
  by_cases inside : i < list.length
  · rw [List.getElem?_append_left inside]
  · rw [List.getElem?_append_right (by omega),List.getElem?_eq_none (by omega : list.length ≤ i),List.getElem?_replicate]
    split <;> rfl

theorem overwrite_padded (zero : α) (size : Nat) (list : List α) (start : Nat) (run : List α)
    (reaches : start ≤ list.length) (inside : start + run.length ≤ size) :
    overwrite (padded zero size list) start run =
      padded zero size (list.take start ++ run ++ list.drop (start + run.length)) := by
  have front : (list.take start).length = start := by
    rw [List.length_take]
    omega
  have front_padded : ((padded zero size list).take start).length = start := by
    rw [List.length_take,padded_length]
    omega
  apply List.ext_getElem?
  intro i
  rw [padded_getElem?,overwrite,List.append_assoc,List.append_assoc]
  by_cases before : i < start
  · rw [List.getElem?_append_left (by omega),List.getElem?_append_left (by omega),List.getElem?_take_of_lt before,
      padded_getElem?,List.getElem?_take_of_lt before]
  · have behind : (list.take start ++ (run ++ list.drop (start + run.length)))[i]? =
        (run ++ list.drop (start + run.length))[i - start]? := by
      rw [List.getElem?_append_right (by omega),front]
    rw [List.getElem?_append_right (by omega),front_padded,behind]
    by_cases within : i < start + run.length
    · have here : i - start < run.length := by omega
      rw [List.getElem?_append_left here,List.getElem?_append_left here,if_pos (by omega),List.getElem?_eq_getElem here]
      rfl
    · rw [List.getElem?_append_right (by omega),List.getElem?_append_right (by omega),List.getElem?_drop,List.getElem?_drop,
        padded_getElem?]
      have index : start + run.length + (i - start - run.length) = i := by omega
      rw [index]

/-- Overwriting a run of zeros by the part of a list that fits gives a block of it. -/
theorem overwrite_zeros (zero : α) (front back list : List α) (size limit : Nat)
    (enough : size ≤ limit) :
    (overwrite (front ++ List.replicate size zero ++ back) front.length (list.take limit)).take
      (front.length + size) = front ++ padded zero size list := by
  have run : (list.take limit).take size = list.take size := by
    rw [List.take_take,Nat.min_eq_left enough]
  have start : (front ++ List.replicate size zero ++ back).take front.length = front := by
    rw [List.append_assoc,List.take_left]
  rw [overwrite,start,List.append_assoc,List.take_append,List.take_of_length_le (by omega),
    Nat.add_sub_cancel_left,List.take_append,run,padded]
  congr 2
  rw [List.append_assoc,← List.drop_drop,List.drop_left]
  by_cases long : size ≤ list.length
  · have zero_left : size - list.length = 0 := by omega
    have covered : size - (list.take limit).length = 0 := by
      rw [List.length_take]
      omega
    rw [zero_left,covered,List.take_zero,List.replicate_zero]
  · have whole : (list.take limit).length = list.length := by simp; omega
    rw [whole,List.drop_append_of_le_length (by simp; omega),List.drop_replicate,
      List.take_append_of_le_length (by simp),List.take_of_length_le (by simp)]

end LEDMessageBoard.General.Blocks
