import Marshal.Path
import Marshal.Proofs.Text.Digits

/-!
  The text of a path names one path only.

  The text of a step ends where the next one begins: a step begins with a bracket or a point, and
  the number of a field has no such character in it. So the first step can be read off the text of
  a path, with the text of the other steps left over (`Step.shown_append_inj`), and by induction
  all of them can (`Path.text_eq_iff`).
-/

namespace Marshal

open Text (StopsDigits stopsDigits_nil stopsDigits_cons toDigits_append_inj toDigits_append_ne)

/-! ### One step -/

theorem Step.stopsDigits_shown (s : Step) (rest : List Char) : StopsDigits (s.shown ++ rest) := by
  cases s with
  | element index => exact stopsDigits_cons (fun _ => Nat.digitChar_ne '[' rfl) _
  | field index => exact stopsDigits_cons (fun _ => Nat.digitChar_ne '.' rfl) _
  | key => exact stopsDigits_cons (fun _ => Nat.digitChar_ne '.' rfl) _
  | value => exact stopsDigits_cons (fun _ => Nat.digitChar_ne '.' rfl) _

/-- The number of a field is no name of a half of a dict entry. -/
theorem Step.shown_field_append_ne {index : Nat} {s : Step} (hs : s = .key ∨ s = .value)
    (rest rest' : List Char) : (Step.field index).shown ++ rest ≠ s.shown ++ rest' := by
  intro h
  rcases hs with rfl | rfl
  · exact toDigits_append_ne (by decide) (fun _ => Nat.digitChar_ne 'k' rfl) _ _ (List.cons.inj h).2
  · exact toDigits_append_ne (by decide) (fun _ => Nat.digitChar_ne 'v' rfl) _ _ (List.cons.inj h).2

/-- Where two steps begin one text, they are the same and so is the text behind them. -/
theorem Step.shown_append_inj {s u : Step} {rest rest' : List Char} (hrest : StopsDigits rest)
    (hrest' : StopsDigits rest') (h : s.shown ++ rest = u.shown ++ rest') :
    s = u ∧ rest = rest' := by
  cases s with
  | element i =>
    cases u with
    | element j =>
      -- the digits end at the bracket, whatever is behind it
      simp only [Step.shown, List.cons_append, List.append_assoc, List.nil_append,
        List.cons.injEq, true_and] at h
      have hbracket := stopsDigits_cons fun _ => Nat.digitChar_ne ']' rfl
      obtain ⟨rfl, hsame⟩ :=
        toDigits_append_inj (by decide) (by decide) (hbracket rest) (hbracket rest') h
      exact ⟨rfl, (List.cons.inj hsame).2⟩
    | field _ | key | value => simp [Step.shown] at h
  | field i =>
    cases u with
    | element _ => simp [Step.shown] at h
    | field j =>
      obtain ⟨rfl, hsame⟩ :=
        toDigits_append_inj (by decide) (by decide) hrest hrest' (List.cons.inj h).2
      exact ⟨rfl, hsame⟩
    | key => exact absurd h (Step.shown_field_append_ne (.inl rfl) rest rest')
    | value => exact absurd h (Step.shown_field_append_ne (.inr rfl) rest rest')
  | key =>
    cases u with
    | field _ => exact absurd h.symm (Step.shown_field_append_ne (.inl rfl) rest' rest)
    | element _ | value => simp [Step.shown] at h
    | key => exact ⟨rfl, List.append_cancel_left h⟩
  | value =>
    cases u with
    | field _ => exact absurd h.symm (Step.shown_field_append_ne (.inr rfl) rest' rest)
    | element _ | key => simp [Step.shown] at h
    | value => exact ⟨rfl, List.append_cancel_left h⟩

/-! ### Whole paths -/

theorem stopsDigits_steps (steps : List Step) : StopsDigits (steps.flatMap Step.shown) := by
  cases steps with
  | nil => exact stopsDigits_nil
  | cons s steps => exact s.stopsDigits_shown _

theorem steps_inj {steps steps' : List Step}
    (h : steps.flatMap Step.shown = steps'.flatMap Step.shown) : steps = steps' := by
  induction steps generalizing steps' with
  | nil =>
    cases steps' with
    | nil => rfl
    | cons s steps' => cases s <;> simp [Step.shown] at h
  | cons s steps ih =>
    cases steps' with
    | nil => cases s <;> simp [Step.shown] at h
    | cons s' steps' =>
      rw [List.flatMap_cons, List.flatMap_cons] at h
      obtain ⟨rfl, hrest⟩ :=
        Step.shown_append_inj (stopsDigits_steps steps) (stopsDigits_steps steps') h
      rw [ih hrest]

/-- Two paths have one text only if they take the same steps in the same order. -/
theorem Path.text_eq_iff (p q : Path) : p.text = q.text ↔ p = q := by
  constructor
  · intro h
    have hshown : p.shown = q.shown := String.ofList_injective h
    have hsteps : p.steps = q.steps := steps_inj (List.cons.inj hshown).2
    exact congrArg Path.mk hsteps
  · intro h
    rw [h]

example : (Path.mk [.field 12, .field 3]).text ≠ (Path.mk [.field 1, .field 23]).text := by decide

end Marshal
