import Marshal.Proofs.Text.Digits
import Marshal.Text.Quoted

/-!
  Quoted text can be read back.

  A character is written plainly, by a letter behind a backslash or by its number
  (`Escape`), and each of the three says where it ends. So the first character can be read off
  what is written (`Escape.append_inj`), none of them is taken for the quote that ends the text,
  and a quoted text says what it quotes, whatever stands behind it (`quote_append_inj`).
-/

namespace Marshal.Text

/-! ### One character -/

/-- The character that a letter behind a backslash stands for. -/
def shorthand? (letter : Char) : Option Char :=
  if letter = '0' then some '\x00'
  else if letter = 't' then some '\t'
  else if letter = 'r' then some '\r'
  else if letter = 'n' then some '\n'
  else if letter = '"' then some '"'
  else if letter = '\\' then some '\\'
  else none

inductive Escape (c : Char) : List Char → Prop where
  | plain (hquote : c ≠ '"') (hbackslash : c ≠ '\\') : Escape c [c]
  | shorthand {letter : Char} (h : shorthand? letter = some c) : Escape c ['\\', letter]
  | number : Escape c (numbered c)

theorem escape_eq (c : Char) : Escape c (escape c) := by
  unfold escape
  split
  · exact .shorthand rfl
  · exact .shorthand rfl
  · exact .shorthand rfl
  · exact .shorthand rfl
  · exact .shorthand rfl
  · exact .shorthand rfl
  · next hquote hbackslash =>
    split
    · exact .plain hquote hbackslash
    · exact .number

/-- A number in braces ends at the brace behind it. -/
theorem numbered_append_inj {c d : Char} {rest rest' : List Char}
    (h : numbered c ++ rest = numbered d ++ rest') : c = d ∧ rest = rest' := by
  simp only [numbered, List.cons_append, List.append_assoc, List.nil_append, List.cons.injEq,
    true_and] at h
  have hbrace := stopsDigits_cons fun _ => Nat.digitChar_ne '}' rfl
  obtain ⟨hcode, hsame⟩ :=
    toDigits_append_inj (by decide) (by decide) (hbrace rest) (hbrace rest') h
  exact ⟨Char.toNat_inj.1 hcode, (List.cons.inj hsame).2⟩

/-- What is written for a character says which one it is and where it ends. -/
theorem Escape.append_inj {c d : Char} {shown shown' rest rest' : List Char}
    (hc : Escape c shown) (hd : Escape d shown') (h : shown ++ rest = shown' ++ rest') :
    c = d ∧ rest = rest' := by
  cases hc with
  | plain _ hbackslash =>
    cases hd with
    | plain => exact List.cons.inj h
    | shorthand => exact absurd (List.cons.inj h).1 hbackslash
    | number => exact absurd (List.cons.inj h).1 hbackslash
  | shorthand hletter =>
    cases hd with
    | plain _ hbackslash => exact absurd (List.cons.inj h).1.symm hbackslash
    | shorthand hletter' =>
      obtain ⟨rfl, hsame⟩ := List.cons.inj (List.cons.inj h).2
      rw [hletter] at hletter'
      exact ⟨Option.some.inj hletter', hsame⟩
    | number =>
      -- the letter of a number is no shorthand
      rw [(List.cons.inj (List.cons.inj h).2).1] at hletter
      cases hletter
  | number =>
    cases hd with
    | plain _ hbackslash => exact absurd (List.cons.inj h).1.symm hbackslash
    | shorthand hletter =>
      rw [← (List.cons.inj (List.cons.inj h).2).1] at hletter
      cases hletter
    | number => exact numbered_append_inj h

theorem Escape.append_ne_quote {c : Char} {shown : List Char} (hc : Escape c shown)
    (rest rest' : List Char) : shown ++ rest ≠ '"' :: rest' := by
  intro h
  cases hc with
  | plain hquote _ => exact hquote (List.cons.inj h).1
  | shorthand => cases (List.cons.inj h).1
  | number => cases (List.cons.inj h).1

/-! ### Whole texts -/

theorem flatMap_escape_append_inj {s t rest rest' : List Char}
    (h : s.flatMap escape ++ '"' :: rest = t.flatMap escape ++ '"' :: rest') :
    s = t ∧ rest = rest' := by
  induction s generalizing t with
  | nil =>
    cases t with
    | nil => exact ⟨rfl, (List.cons.inj h).2⟩
    | cons d t =>
      rw [List.flatMap_cons, List.append_assoc] at h
      exact absurd h.symm ((escape_eq d).append_ne_quote _ _)
  | cons c s ih =>
    cases t with
    | nil =>
      rw [List.flatMap_cons, List.append_assoc] at h
      exact absurd h ((escape_eq c).append_ne_quote _ _)
    | cons d t =>
      rw [List.flatMap_cons, List.flatMap_cons, List.append_assoc, List.append_assoc] at h
      obtain ⟨rfl, htail⟩ := (escape_eq c).append_inj (escape_eq d) h
      obtain ⟨rfl, hsame⟩ := ih htail
      exact ⟨rfl, hsame⟩

/-- A quoted text ends at the first quote that is not escaped, and says what it quotes. -/
theorem quote_append_inj {s t rest rest' : List Char} (h : quote s ++ rest = quote t ++ rest') :
    s = t ∧ rest = rest' := by
  simp only [quote, List.cons_append, List.append_assoc, List.nil_append, List.cons.injEq,
    true_and] at h
  exact flatMap_escape_append_inj h

end Marshal.Text
