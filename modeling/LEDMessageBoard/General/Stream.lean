/-! Receivers of an unstructured stream: a step for each element, and how whole
frames of the stream act on a receiver at rest. -/
namespace LEDMessageBoard.General.Stream

variable {σ β : Type} (step : σ → β → σ)

def consume (state : σ) (stream : List β) : σ := stream.foldl step state

theorem consume_append (state : σ) (first second : List β) :
    consume step state (first ++ second) = consume step (consume step state first) second :=
  List.foldl_append

theorem consume_ignored (state : σ) (stream : List β) (ignored : ∀ value ∈ stream, step state value = state) :
    consume step state stream = state := by
  induction stream with
  | nil => rfl
  | cons value rest ih =>
    rw [consume,List.foldl_cons,ignored value (by simp)]
    exact ih (fun other member => ignored other (by simp [member]))

theorem consume_collecting (collecting finish : List β → σ) (size : Nat)
    (collect : ∀ received value, step (collecting received) value =
      if received.length + 1 < size then collecting (received ++ [value]) else finish (received ++ [value]))
    (received stream : List β) (whole : received.length + stream.length = size) (more : stream ≠ []) :
    consume step (collecting received) stream = finish (received ++ stream) := by
  induction stream generalizing received with
  | nil => contradiction
  | cons value rest ih =>
    rw [consume,List.foldl_cons,collect]
    cases rest with
    | nil =>
      rw [if_neg (by simp at whole; omega)]
      rfl
    | cons next rest =>
      rw [if_pos (by simp at whole; omega)]
      have continued := ih (received ++ [value]) (by simp at whole ⊢; omega) (by simp)
      rw [List.append_assoc] at continued
      exact continued

/-- Frames that each take a receiver at rest to a receiver at rest never lose the
synchronisation, in any number and order. -/
theorem consume_frames (rest : σ → Prop) (effect : σ → List β → σ) (frames : List (List β))
    (each : ∀ frame ∈ frames, ∀ state, rest state →
      consume step state frame = effect state frame ∧ rest (effect state frame))
    (state : σ) (ready : rest state) :
    consume step state frames.flatten = frames.foldl effect state ∧ rest (frames.foldl effect state) := by
  induction frames generalizing state with
  | nil => exact ⟨rfl,ready⟩
  | cons frame frames ih =>
    obtain ⟨parsed,ready⟩ := each frame (by simp) state ready
    rw [List.flatten_cons,consume_append,parsed,List.foldl_cons]
    exact ih (fun other member => each other (by simp [member])) _ ready

end LEDMessageBoard.General.Stream
