import Marshal.Proofs.Signature.Reader
import Marshal.Proofs.Text.Utf8

/-!
  Where a text stops being a signature.

  The reader refuses a letter only when no signature goes on with it. From every state some
  letters lead to a complete type (`exists_completion`), so what was read so far begins a
  signature, and since a letter leads to one state only, no signature passes a letter that the
  reader refuses. Offsets count bytes: all letters that were read are single bytes, so the offset
  of an error is the length of the longest part of the text that begins a signature
  (`parse_error_offset`).
-/

namespace Marshal.Signature.Parser

open Text.Utf8 (encode leadByte Ascii)

/-! ### Runs of the reader -/

theorem Move.unique {state next next' : State} {letter : Char} (h : Move state letter next)
    (h' : Move state letter next') : next = next' := by
  have hstep := step_ok_iff.2 h
  rw [step_ok_iff.2 h'] at hstep
  exact (Except.ok.inj hstep).symm

theorem Moves.unique {state last last' : State} {letters : List Char}
    (h : Moves state letters last) (h' : Moves state letters last') : last = last' := by
  induction h with
  | done => cases h'; rfl
  | more hmove _ ih =>
    cases h' with
    | more hmove' hrest =>
      cases hmove.unique hmove'
      exact ih hrest

theorem Moves.split {state last : State} {front back : List Char}
    (h : Moves state (front ++ back) last) :
    ∃ middle, Moves state front middle ∧ Moves middle back last := by
  induction front generalizing state with
  | nil => exact ⟨state, .done, h⟩
  | cons letter front ih =>
    cases h with
    | more hmove hrest =>
      rcases ih hrest with ⟨middle, hfront, hback⟩
      exact ⟨middle, .more hmove hfront, hback⟩

/-! ### Letters are single bytes -/

theorem Move.ascii {state next : State} {letter : Char} (h : Move state letter next) :
    letter.toNat < 0x80 := by
  cases h with
  | @scalar _ type _ h =>
    rw [← ScalarType.letter_of_ofLetter? h]
    cases type with
    | int c => cases c <;> decide
    | _ => decide
  | opening h _ =>
    unfold opened? at h
    split at h
    · next ha => rw [ha]; decide
    · split at h
      · next hs => rw [hs]; decide
      · split at h
        · next he => rw [he]; decide
        · cases h
  | closeStruct _ => decide
  | closeEntry => decide

theorem Moves.ascii {state last : State} {letters : List Char} (h : Moves state letters last) :
    Ascii letters := by
  induction h with
  | done => exact nofun
  | more hmove _ ih => exact List.forall_mem_cons.2 ⟨hmove.ascii, ih⟩

/-! ### Completions -/

/-- Inside any open containers a type can be followed up by brackets and bytes to a whole one. -/
theorem exists_completion_deliver (t : TypeTree) (stack : List Frame) :
    ∃ letters u, Moves (deliver t stack) letters (.complete u) := by
  have hbyte : ∀ stack, Move (.expecting stack) 'y' (deliver (.scalar (.int .byte)) stack) :=
    fun _ => .scalar rfl
  induction stack generalizing t with
  | nil => exact ⟨[], t, .done⟩
  | cons frame stack ih =>
    cases frame with
    | array => exact ih (.array t)
    | struct fields =>
      rcases ih (.struct (t :: fields).reverse) with ⟨letters, u, hrest⟩
      exact ⟨')' :: letters, u, .more (.closeStruct (List.cons_ne_nil _ _)) hrest⟩
    | entry key =>
      cases key with
      | none =>
        rcases ih (.dictEntry t (.scalar (.int .byte))) with ⟨letters, u, hrest⟩
        exact ⟨'y' :: '}' :: letters, u, .more (hbyte _) (.more .closeEntry hrest)⟩
      | some key =>
        rcases ih (.dictEntry key t) with ⟨letters, u, hrest⟩
        exact ⟨'}' :: letters, u, .more .closeEntry hrest⟩

/-- From every state some letters lead to a complete type. -/
theorem exists_completion (state : State) :
    ∃ letters t, Moves state letters (.complete t) := by
  cases state with
  | complete t => exact ⟨[], t, .done⟩
  | closing key value stack =>
    rcases exists_completion_deliver (.dictEntry key value) stack with ⟨letters, t, hrest⟩
    exact ⟨'}' :: letters, t, .more .closeEntry hrest⟩
  | expecting stack =>
    rcases exists_completion_deliver (.scalar (.int .byte)) stack with ⟨letters, t, hrest⟩
    exact ⟨'y' :: letters, t, .more (.scalar rfl) hrest⟩

/-! ### Refusals -/

/-- Whether the reader can go no further: there is no letter, or it refuses the next one. -/
def Halts (state : State) (back : List Char) : Prop :=
  ∀ letter rest, back = letter :: rest → ∀ next, ¬ Move state letter next

theorem halts_nil (state : State) : Halts state [] := by
  intro letter rest h
  cases h

theorem halts_of_step_error {state : State} {letter : Char} {rest : List Char} {reason : Reason}
    (h : step state letter = .error reason) : Halts state (letter :: rest) := by
  intro letter' rest' heq next hmove
  cases heq
  rw [step_ok_iff.2 hmove] at h
  cases h

/-- An error names the number of letters that were read before the reader stopped. -/
theorem run_error {offset : Nat} {state : State} {letters : List Char} {fault : Fault}
    (h : run offset state letters = .error fault) :
    ∃ front back last, letters = front ++ back ∧ fault.offset = offset + front.length ∧
      Moves state front last ∧ Halts last back := by
  induction letters generalizing offset state with
  | nil =>
    rw [run] at h
    rcases mapError_error_iff.1 h with ⟨reason, -, rfl⟩
    exact ⟨[], [], state, rfl, rfl, .done, halts_nil state⟩
  | cons letter rest ih =>
    rw [run] at h
    cases hstep : step state letter with
    | ok next =>
      rw [hstep] at h
      rcases ih h with ⟨front, back, last, rfl, hoffset, hmoves, hhalts⟩
      refine ⟨letter :: front, back, last, rfl, ?_, .more (step_ok_iff.1 hstep) hmoves, hhalts⟩
      rw [hoffset, List.length_cons, Nat.add_assoc, Nat.add_comm 1]
    | error reason =>
      rw [hstep] at h
      cases h
      exact ⟨[], letter :: rest, state, rfl, rfl, .done, halts_of_step_error hstep⟩

theorem read_error {letters : List Char} {fault : Fault} (h : read letters = .error fault) :
    ∃ front back last, letters = front ++ back ∧ fault.offset = front.length ∧
      Moves (.expecting []) front last ∧ Halts last back := by
  cases letters with
  | nil =>
    cases h
    exact ⟨[], [], .expecting [], rfl, rfl, .done, halts_nil _⟩
  | cons letter rest =>
    rcases run_error h with ⟨front, back, last, hletters, hoffset, hmoves, hhalts⟩
    rw [Nat.zero_add] at hoffset
    exact ⟨front, back, last, hletters, hoffset, hmoves, hhalts⟩

/-! ### Beginnings of signatures -/

/-- Whether bytes are the first bytes of some signature. -/
def BeginsSignature (bytes : List UInt8) : Prop :=
  ∃ text t, TypeTree.parse text = .ok t ∧ bytes <+: encode text.toList

theorem beginsSignature_of_moves {front : List Char} {last : State}
    (h : Moves (.expecting []) front last) : BeginsSignature (encode front) := by
  rcases exists_completion last with ⟨more, t, hmore⟩
  refine ⟨String.ofList (front ++ more), t, ?_, ?_⟩
  · rw [parse_ok_iff_moves, String.toList_ofList]
    exact h.append hmore
  · rw [String.toList_ofList, Text.Utf8.encode_append]
    exact List.prefix_append _ _

/-- Where the reader stops, even the first byte of the letter it refuses leads to no signature. -/
theorem not_beginsSignature_of_halts {front rest : List Char} {letter : Char} {last : State}
    (h : Moves (.expecting []) front last) (hhalts : Halts last (letter :: rest)) :
    ¬ BeginsSignature (encode front ++ [leadByte letter]) := by
  intro hbegins
  rcases hbegins with ⟨text, t, hparse, hprefix⟩
  have hmoves := parse_ok_iff_moves.1 hparse
  rcases Text.Utf8.prefix_of_encode_prefix hmoves.ascii hprefix with ⟨more, hmore⟩
  rw [← hmore, List.append_assoc] at hmoves
  rcases hmoves.split with ⟨middle, hfront, hback⟩
  -- a signature that goes on with the letter passes the state that refuses it
  cases hfront.unique h
  cases hback with
  | more hmove _ => exact hhalts letter rest rfl _ hmove

/-- A text that is no signature is refused at an offset that is exact: the bytes before it begin
    some signature, and no signature begins with them and the byte that stands there. -/
theorem parse_error_offset {text : String} {e : Error} (h : TypeTree.parse text = .error e) :
    ∃ fault, e = .malformedSignature text fault ∧
      fault.offset ≤ (encode text.toList).length ∧
      BeginsSignature ((encode text.toList).take fault.offset) ∧
      (fault.offset < (encode text.toList).length →
        ¬ BeginsSignature ((encode text.toList).take (fault.offset + 1))) := by
  rcases mapError_error_iff.1 h with ⟨fault, hread, rfl⟩
  rcases read_error hread with ⟨front, back, last, hletters, hoffset, hmoves, hhalts⟩
  have hlength : fault.offset = (encode front).length := by
    rw [hoffset, Text.Utf8.length_encode_of_ascii hmoves.ascii]
  rw [hletters, Text.Utf8.encode_append]
  refine ⟨fault, rfl, ?_, ?_, ?_⟩
  · rw [hlength, List.length_append]
    exact Nat.le_add_right _ _
  · rw [hlength, List.take_left]
    exact beginsSignature_of_moves hmoves
  · intro hlt
    cases back with
    | nil =>
      rw [hlength, List.length_append] at hlt
      exact absurd hlt (Nat.lt_irrefl _)
    | cons letter rest =>
      rcases Text.Utf8.encodeChar_eq_leadByte_cons letter with ⟨bs, hbytes⟩
      have htake : (encode front ++ encode (letter :: rest)).take (fault.offset + 1) =
          encode front ++ [leadByte letter] := by
        rw [hlength, List.take_length_add_append, Text.Utf8.encode_cons, hbytes]
        rfl
      rw [htake]
      exact not_beginsSignature_of_halts hmoves hhalts

/-- A letter of two bytes is refused at its first byte. -/
theorem parse_error_offset_letter :
    TypeTree.parse "(ié)" = .error (.malformedSignature "(ié)" ⟨2, .unknownLetter 0xc3⟩) ∧
      BeginsSignature (encode ['(', 'i']) ∧
      ¬ BeginsSignature (encode ['(', 'i'] ++ [0xc3]) := by
  have hparse : TypeTree.parse "(ié)" =
      .error (.malformedSignature "(ié)" ⟨2, .unknownLetter 0xc3⟩) := rfl
  rcases parse_error_offset hparse with ⟨fault, heq, -, hbegins, hrefused⟩
  cases heq
  exact ⟨hparse, hbegins, hrefused (by decide)⟩

end Marshal.Signature.Parser
