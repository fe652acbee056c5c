import Marshal.Signature.TypeTree

/-!
  Signatures can be told apart.

  The letters of a type end where they must: a text that begins with the letters of a type
  determines the type and the rest of the text (`letters_append_inj`). This holds of every
  type, also of those that are nested too deep to be read and of empty structs, so two types
  with one signature are the same (`signature_inj`).
-/

namespace Marshal

/-- No scalar type has a letter that opens or closes a container. -/
theorem ScalarType.letter_ne {letter : Char} (h : ofLetter? letter = none) (c : ScalarType) :
    c.letter ≠ letter := by
  intro hc
  rw [← hc, ofLetter?_letter] at h
  cases h

namespace TypeTree

/-- The letters of a type do not begin with the bracket that ends a struct. -/
theorem letters_ne_close (t : TypeTree) (front back : List Char) :
    t.letters ++ front ≠ ')' :: back := by
  intro h
  cases t with
  | scalar c => exact ScalarType.letter_ne rfl c (List.cons.inj h).1
  | _ => simp [letters] at h

mutual

/-- Where the letters of two types begin one text, the types are the same. -/
theorem letters_append_inj (s t : TypeTree) {rest rest' : List Char}
    (h : s.letters ++ rest = t.letters ++ rest') : s = t ∧ rest = rest' :=
  match s with
  | .scalar c => by
    cases t with
    | scalar d =>
      obtain ⟨hletter, rfl⟩ := List.cons.inj h
      have hsame := congrArg ScalarType.ofLetter? hletter
      rw [ScalarType.ofLetter?_letter, ScalarType.ofLetter?_letter] at hsame
      cases hsame
      exact ⟨rfl, rfl⟩
    | _ => exact absurd (List.cons.inj h).1 (ScalarType.letter_ne rfl c)
  | .array s => by
    cases t with
    | array t =>
      obtain ⟨rfl, hrest⟩ := letters_append_inj s t (List.cons.inj h).2
      exact ⟨rfl, hrest⟩
    | scalar d => exact absurd (List.cons.inj h).1.symm (ScalarType.letter_ne rfl d)
    | _ => simp [letters] at h
  | .struct ss => by
    cases t with
    | struct ts =>
      simp only [letters, List.cons_append, List.append_assoc, List.cons.injEq, true_and,
        List.nil_append] at h
      obtain ⟨rfl, hrest⟩ := fieldsLetters_append_inj ss ts h
      exact ⟨rfl, hrest⟩
    | scalar d => exact absurd (List.cons.inj h).1.symm (ScalarType.letter_ne rfl d)
    | _ => simp [letters] at h
  | .dictEntry k v => by
    cases t with
    | dictEntry l w =>
      simp only [letters, List.cons_append, List.append_assoc, List.cons.injEq, true_and,
        List.nil_append] at h
      obtain ⟨rfl, hvalue⟩ := letters_append_inj k l h
      obtain ⟨rfl, hrest⟩ := letters_append_inj v w hvalue
      exact ⟨rfl, (List.cons.inj hrest).2⟩
    | scalar d => exact absurd (List.cons.inj h).1.symm (ScalarType.letter_ne rfl d)
    | _ => simp [letters] at h

/-- The bracket behind the fields of a struct says where they end. -/
theorem fieldsLetters_append_inj (ss ts : List TypeTree) {rest rest' : List Char}
    (h : fieldsLetters ss ++ ')' :: rest = fieldsLetters ts ++ ')' :: rest') :
    ss = ts ∧ rest = rest' :=
  match ss, ts with
  | [], [] => ⟨rfl, (List.cons.inj h).2⟩
  | [], t :: ts => by
    rw [fieldsLetters, fieldsLetters, List.append_assoc] at h
    exact absurd h.symm (letters_ne_close t _ _)
  | s :: ss, [] => by
    rw [fieldsLetters, fieldsLetters, List.append_assoc] at h
    exact absurd h (letters_ne_close s _ _)
  | s :: ss, t :: ts => by
    rw [fieldsLetters, fieldsLetters, List.append_assoc, List.append_assoc] at h
    obtain ⟨rfl, hfields⟩ := letters_append_inj s t h
    obtain ⟨rfl, hrest⟩ := fieldsLetters_append_inj ss ts hfields
    exact ⟨rfl, hrest⟩

end

/-- A type is told by its letters. -/
theorem letters_inj {s t : TypeTree} (h : s.letters = t.letters) : s = t := by
  have happend : s.letters ++ [] = t.letters ++ [] := by rw [h]
  exact (letters_append_inj s t happend).1

theorem signature_inj {s t : TypeTree} (h : s.signature = t.signature) : s = t := by
  have hletters := congrArg String.toList h
  rw [signature, signature, String.toList_ofList, String.toList_ofList] at hletters
  exact letters_inj hletters

end TypeTree

end Marshal
