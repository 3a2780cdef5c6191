import LEDMessageBoard.CliLoop
import LEDMessageBoard.Typing

/-! A line that is typed key by key, for whatever is to be known of it in between: the loop
over the bytes is gone through once, for all of them. -/
namespace LEDMessageBoard.KeyRuns
open General General.Transducer Config Telnet LineEditor CliLoop Typing

theorem glyph_ordinary {c : UInt8} (glyph : Glyph c) (control : UInt8) (low : control < 0x20) : c ≠ control := by
  intro same
  subst same
  exact absurd glyph.1 (UInt8.not_le.mpr low)

/-- The keys that edit the line are looked at last. -/
theorem key_press {access : Access} {s : Session} {c : UInt8} (key : isEditKey c = true ∨ Glyph c) :
    s.key access c = (s.editor.press s.hidden c).bind fun (editor,echo,next) =>
      match next with
      | .more => ({s with editor := editor}).stays echo
      | .entered kept => ({s with editor := editor}).enter access kept echo := by
  have others : c ≠ 0x0D ∧ c ≠ ctrl 0x43 ∧ c ≠ ctrl 0x4C ∧ c ≠ ctrl 0x44 ∧ c ≠ ctrl 0x5A ∧ c ≠ ctrl 0x49 ∧ c ≠ ctrl 0x50 ∧
      c ≠ ctrl 0x4E := by
    obtain edits | glyph := key
    · have listed := of_decide_eq_true edits
      refine ⟨?_,?_,?_,?_,?_,?_,?_,?_⟩
      all_goals
        intro same
        subst same
        revert listed
        decide
    · refine ⟨?_,?_,?_,?_,?_,?_,?_,?_⟩
      all_goals exact glyph_ordinary glyph _ (by decide)
  obtain ⟨enter,interrupt,redraw,ends,suspend,tab,older,newer⟩ := others
  unfold Session.key
  rw [if_neg enter,if_neg interrupt,if_neg redraw,if_neg ends,if_neg suspend,if_neg tab,if_neg (by simp [older,newer])]
  rfl

private theorem decode_keys (d : Decoder) (c : UInt8) : (decode d c).2 = [] ∨ ∃ key, (decode d c).2 = [key] := by
  have arrows (c : UInt8) : arrow c = [] ∨ ∃ key, arrow c = [key] := by
    unfold arrow
    repeat
      split
      next => exact .inr ⟨_,rfl⟩
    exact .inl rfl
  unfold decode
  dsimp only
  split
  next => exact .inl rfl
  split
  next => exact .inl rfl
  split
  next => exact .inl rfl
  split
  next => exact arrows c
  split
  next => exact .inl rfl
  split
  next => exact .inl rfl
  split
  next => exact .inl rfl
  next => exact .inr ⟨c,rfl⟩

private theorem feed_cons {access : Access} {c : UInt8} {rest : Bytes} {s middle : Session} {echo : Bytes}
    (given : s.input access c = some ⟨some middle,echo,none,[]⟩) :
    feed access (c :: rest) s = (feed access rest middle).map fun (last,sent) => (last,echo ++ sent) := by
  rw [feed,given]
  cases fed : feed access rest middle with
  | none => simp [fed]
  | some fed => simp [fed]

/-- What holds of the editor between two keys, as long as the keys are admitted: a state, the
one that the next key leads to, and what the key is answered with. -/
structure Interaction (access : Access) (σ : Type) where
  still : Session → Prop
  kept : ∀ s e d, still s → still {s with editor := e,decoder := d}
  shows : Editor → σ → Prop
  next : UInt8 → σ → σ
  admits : σ → UInt8 → Prop
  answers : σ → UInt8 → Bytes → Prop
  key : ∀ s state c, still s → shows s.editor state → admits state c →
    ∃ editor echo, s.key access c = some ⟨some {s with editor := editor},echo,none,[]⟩ ∧ shows editor (next c state) ∧
      answers state c echo

variable {access : Access} {σ : Type}

def Interaction.Admitted (i : Interaction access σ) (state : σ) : Bytes → Prop
  | [] => True
  | c :: rest => i.admits state c ∧ i.Admitted (i.next c state) rest

def Interaction.after (i : Interaction access σ) (state : σ) (keys : Bytes) : σ := keys.foldl (fun state c => i.next c state) state

/-- The answers to some keys, one after the other. -/
inductive Interaction.Answered (i : Interaction access σ) : σ → Bytes → Bytes → Prop where
  | nothing {state : σ} : i.Answered state [] []
  | key {state : σ} {c : UInt8} {echo rest sent : Bytes} (first : i.answers state c echo)
    (others : i.Answered (i.next c state) rest sent) : i.Answered state (c :: rest) (echo ++ sent)

/-- Bytes that are decoded to admitted keys: the session goes on with the state they lead to. -/
theorem Interaction.feed_runs (i : Interaction access σ) (bytes : Bytes) (s : Session) (state : σ) (still : i.still s)
    (shows : i.shows s.editor state) (admitted : i.Admitted state (emit decode s.decoder bytes).2) :
    ∃ editor sent, feed access bytes s = some ({s with editor := editor,decoder := (emit decode s.decoder bytes).1},sent) ∧
      i.shows editor (i.after state (emit decode s.decoder bytes).2) ∧ i.Answered state (emit decode s.decoder bytes).2 sent := by
  induction bytes generalizing s state with
  | nil => exact ⟨s.editor,[],rfl,shows,.nothing⟩
  | cons c rest ih =>
    rw [emit_cons] at admitted ⊢
    let decoded : Session := {s with decoder := (decode s.decoder c).1}
    have input : s.input access c = match (decode s.decoder c).2 with
      | [] => decoded.stays []
      | key :: _ => decoded.key access key := rfl
    have decoded_still : i.still decoded := i.kept s s.editor _ still
    obtain none | ⟨key,one⟩ := decode_keys s.decoder c
    · rw [none,List.nil_append] at admitted ⊢
      rw [none] at input
      obtain ⟨editor,sent,fed,after,answered⟩ := ih decoded state decoded_still shows admitted
      refine ⟨editor,sent,?_,after,answered⟩
      rw [feed_cons input,fed]
      rfl
    · rw [one,List.singleton_append] at admitted ⊢
      rw [one] at input
      obtain ⟨first,others⟩ := admitted
      obtain ⟨middle,echo,pressed,middle_shows,answer⟩ := i.key decoded state key decoded_still shows first
      dsimp only at input
      rw [pressed] at input
      obtain ⟨editor,sent,fed,after,answered⟩ :=
        ih {decoded with editor := middle} (i.next key state) (i.kept decoded middle _ decoded_still) middle_shows others
      refine ⟨editor,echo ++ sent,?_,after,.key answer answered⟩
      rw [feed_cons input,fed]
      rfl

end LEDMessageBoard.KeyRuns
