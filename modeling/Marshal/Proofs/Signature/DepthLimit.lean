import Marshal.Proofs.Signature.Offsets

/-!
  Where the limit of nesting is blamed.

  Where a type may begin, a letter that is no scalar type and not the awaited bracket can only
  open a container. The reader looks at the limit before it looks at such a letter: with 128
  open containers it blames the limit, whatever the letter is (`parse_tooDeep_iff`). So the limit
  is also blamed for a letter that opens nothing (`tooDeep_without_opening`), which below the
  limit is refused for what it is.
-/

namespace Marshal.Signature.Parser

def ClosesInnermost (letter : Char) : List Frame → Prop
  | .struct _ :: _ => letter = ')'
  | .entry _ :: _ => letter = '}'
  | _ => False

/-- The reason to refuse a letter that could only open a container, and opens none. -/
def Reason.ofStray (letter : Char) : Reason :=
  if letter = ')' ∨ letter = '}' then .unbalanced letter
  else .unknownLetter (Text.Utf8.leadByte letter)

/-! ### One letter -/

theorem step_eq_descend {letter : Char} {stack : List Frame}
    (hscalar : ScalarType.ofLetter? letter = none) (hclose : ¬ ClosesInnermost letter stack) :
    step (.expecting stack) letter = descend letter stack := by
  have hbegin : begin letter stack = descend letter stack := by rw [begin, hscalar]
  cases stack with
  | nil => exact hbegin
  | cons frame stack =>
    cases frame with
    | array => exact hbegin
    | struct fields => exact (if_neg hclose).trans hbegin
    | entry key => exact (if_neg hclose).trans hbegin

theorem descend_tooDeep_iff {letter : Char} {stack : List Frame} :
    descend letter stack = .error .tooDeep ↔ maxDepth ≤ stack.length := by
  unfold descend
  split
  · next hfull => exact ⟨fun _ => hfull, fun _ => rfl⟩
  · next hroom => grind

theorem descend_of_stray {letter : Char} {stack : List Frame} (hroom : stack.length < maxDepth)
    (hopen : opened? letter = none) : descend letter stack = .error (.ofStray letter) := by
  unfold descend Reason.ofStray
  rw [if_neg (Nat.not_le_of_lt hroom)]
  grind [opened?]

theorem begin_tooDeep_iff {letter : Char} {stack : List Frame} :
    begin letter stack = .error .tooDeep ↔
      ScalarType.ofLetter? letter = none ∧ maxDepth ≤ stack.length := by
  unfold begin
  split
  · next htype => simp [htype]
  · next hscalar => simp [hscalar, descend_tooDeep_iff]

/-- The reader blames the depth at every letter that is neither a scalar nor the awaited bracket,
once the containers are used up, even if the letter opens none. -/
theorem step_tooDeep_iff {state : State} {letter : Char} :
    step state letter = .error .tooDeep ↔
      ∃ stack, state = .expecting stack ∧ ScalarType.ofLetter? letter = none ∧
        ¬ ClosesInnermost letter stack ∧ maxDepth ≤ stack.length := by
  constructor
  · intro h
    unfold step at h
    split at h
    · cases h
    · split at h <;> cases h
    · next fields stack =>
      split at h
      · split at h <;> cases h
      · next hclose =>
        obtain ⟨hscalar, hfull⟩ := begin_tooDeep_iff.1 h
        exact ⟨_, rfl, hscalar, hclose, hfull⟩
    · next key stack =>
      split at h
      · cases key <;> cases h
      · next hclose =>
        obtain ⟨hscalar, hfull⟩ := begin_tooDeep_iff.1 h
        exact ⟨_, rfl, hscalar, hclose, hfull⟩
    · next stack hstruct hentry =>
      obtain ⟨hscalar, hfull⟩ := begin_tooDeep_iff.1 h
      refine ⟨stack, rfl, hscalar, ?_, hfull⟩
      unfold ClosesInnermost
      split
      · exact absurd rfl (hstruct _ _)
      · exact absurd rfl (hentry _ _)
      · exact not_false
  · intro h
    obtain ⟨stack, rfl, hscalar, hclose, hfull⟩ := h
    rw [step_eq_descend hscalar hclose]
    exact descend_tooDeep_iff.2 hfull

theorem finish_ne_tooDeep (state : State) : finish state ≠ .error .tooDeep := by
  unfold finish
  split <;> exact nofun

/-! ### Whole texts -/

theorem run_of_moves {offset : Nat} {state last : State} {front : List Char}
    (h : Moves state front last) (back : List Char) :
    run offset state (front ++ back) = run (offset + front.length) last back := by
  induction h generalizing offset with
  | done => rfl
  | @more state next last letter rest hmove _ ih =>
    have hfirst : run offset state (letter :: (rest ++ back)) =
        run (offset + 1) next (rest ++ back) := by
      rw [run, step_ok_iff.2 hmove]
    rw [List.cons_append, hfirst, ih, List.length_cons, Nat.add_assoc, Nat.add_comm 1]

theorem read_of_moves {last : State} {front : List Char} (h : Moves (.expecting []) front last)
    (letter : Char) (back : List Char) :
    read (front ++ letter :: back) = run front.length last (letter :: back) := by
  have hsome : ¬ (front ++ letter :: back).isEmpty := by simp
  rw [read, if_neg hsome, run_of_moves h, Nat.zero_add]

theorem run_of_read_tooDeep {letters : List Char} {offset : Nat}
    (h : read letters = .error ⟨offset, .tooDeep⟩) :
    run 0 (.expecting []) letters = .error ⟨offset, .tooDeep⟩ := by
  unfold read at h
  split at h
  · cases h
  · exact h

/-- Whether the letter at an offset stands where a type may begin, inside of open containers, and
    could only open one more: it is no scalar type and not the bracket that is awaited. -/
structure OpeningDue (text : String) (offset : Nat) (letter : Char) (stack : List Frame) :
    Prop where
  reached : ∃ front back, text.toList = front ++ letter :: back ∧ front.length = offset ∧
    Moves (.expecting []) front (.expecting stack)
  not_scalar : ScalarType.ofLetter? letter = none
  not_closing : ¬ ClosesInnermost letter stack

theorem OpeningDue.length_le {text : String} {offset : Nat} {letter : Char} {stack : List Frame}
    (h : OpeningDue text offset letter stack) : stack.length ≤ maxDepth := by
  obtain ⟨front, back, -, -, hmoves⟩ := h.reached
  exact StackAdmissible.length_le (hmoves.admissible trivial)

/-- At such a place the refusal of the letter is the refusal of the text. -/
theorem OpeningDue.parse_eq {text : String} {offset : Nat} {letter : Char} {stack : List Frame}
    {reason : Reason} (h : OpeningDue text offset letter stack)
    (hstep : descend letter stack = .error reason) :
    TypeTree.parse text = .error (.malformedSignature text ⟨offset, reason⟩) := by
  obtain ⟨front, back, htext, rfl, hmoves⟩ := h.reached
  rw [TypeTree.parse, htext, read_of_moves hmoves letter back, run,
    step_eq_descend h.not_scalar h.not_closing, hstep]
  rfl

theorem openingDue_of_tooDeep {text : String} {offset : Nat}
    (h : TypeTree.parse text = .error (.malformedSignature text ⟨offset, .tooDeep⟩)) :
    ∃ letter stack, OpeningDue text offset letter stack ∧ maxDepth ≤ stack.length := by
  obtain ⟨fault, hread, hfault⟩ := mapError_error_iff.1 h
  cases hfault
  obtain ⟨front, back, last, hletters, hoffset, hmoves, hhalts⟩ := read_error hread
  have hrun := run_of_read_tooDeep hread
  rw [hletters, run_of_moves hmoves] at hrun
  cases back with
  | nil =>
    -- the end of the letters is refused for reasons of its own
    rw [run] at hrun
    obtain ⟨reason, hfinish, hreason⟩ := mapError_error_iff.1 hrun
    cases hreason
    exact absurd hfinish (finish_ne_tooDeep last)
  | cons letter rest =>
    rw [run] at hrun
    cases hstep : step last letter with
    | ok next => exact absurd (step_ok_iff.1 hstep) (hhalts letter rest rfl next)
    | error reason =>
      rw [hstep] at hrun
      cases hrun
      obtain ⟨stack, rfl, hscalar, hclose, hfull⟩ := step_tooDeep_iff.1 hstep
      exact ⟨letter, stack, ⟨⟨front, rest, hletters, hoffset.symm, hmoves⟩, hscalar, hclose⟩, hfull⟩

/-- The limit of nesting is blamed exactly where 128 containers are open and the next letter could
    only open one more, whether it does or not. With fewer open containers, a letter that could
    only open one and opens none is refused as an unbalanced bracket or an unknown letter. -/
theorem parse_tooDeep_iff (text : String) (offset : Nat) :
    (TypeTree.parse text = .error (.malformedSignature text ⟨offset, .tooDeep⟩) ↔
      ∃ letter stack, OpeningDue text offset letter stack ∧ stack.length = 128) ∧
    ∀ letter stack, OpeningDue text offset letter stack → stack.length < 128 →
      opened? letter = none →
      TypeTree.parse text = .error (.malformedSignature text ⟨offset, .ofStray letter⟩) := by
  refine ⟨⟨?_, ?_⟩, ?_⟩
  · intro h
    obtain ⟨letter, stack, hdue, hfull⟩ := openingDue_of_tooDeep h
    exact ⟨letter, stack, hdue, Nat.le_antisymm hdue.length_le hfull⟩
  · intro h
    obtain ⟨letter, stack, hdue, hfull⟩ := h
    exact hdue.parse_eq (descend_tooDeep_iff.2 (Nat.le_of_eq hfull.symm))
  · intro letter stack hdue hroom hopen
    exact hdue.parse_eq (descend_of_stray hroom hopen)

/-! ### Letters that open nothing -/

theorem moves_arrays {n : Nat} {stack : List Frame} (h : n + stack.length ≤ maxDepth) :
    Moves (.expecting stack) (List.replicate n 'a')
      (.expecting (List.replicate n .array ++ stack)) := by
  induction n generalizing stack with
  | zero => exact .done
  | succ n ih =>
    have hroom : n + (Frame.array :: stack).length ≤ maxDepth := by
      rw [List.length_cons]
      omega
    have hrest := ih hroom
    rw [List.append_cons, ← List.replicate_succ'] at hrest
    exact .more (.opening rfl (by omega)) hrest

theorem openingDue_arrays {n : Nat} {letter : Char} (h : n ≤ maxDepth)
    (hscalar : ScalarType.ofLetter? letter = none) :
    OpeningDue (String.ofList (List.replicate n 'a' ++ [letter])) n letter
      (List.replicate n .array) := by
  refine ⟨⟨List.replicate n 'a', [], String.toList_ofList, List.length_replicate, ?_⟩, hscalar, ?_⟩
  · have hmoves : Moves (.expecting []) _ _ := moves_arrays h
    rwa [List.append_nil] at hmoves
  · cases n <;> exact not_false

/-- Inside of 128 arrays a closing bracket and a letter of no type are refused for the depth, and
    neither opens a container. Inside of one array both are refused for what they are. -/
theorem tooDeep_without_opening :
    Reason.tooDeep.message = "containers nested deeper than 128 levels" ∧
    TypeTree.parse (String.ofList (List.replicate 128 'a' ++ [')'])) =
      .error (.malformedSignature (String.ofList (List.replicate 128 'a' ++ [')']))
        ⟨128, .tooDeep⟩) ∧
    TypeTree.parse (String.ofList (List.replicate 128 'a' ++ ['z'])) =
      .error (.malformedSignature (String.ofList (List.replicate 128 'a' ++ ['z']))
        ⟨128, .tooDeep⟩) ∧
    opened? ')' = none ∧ opened? 'z' = none ∧
    TypeTree.parse "a)" = .error (.malformedSignature "a)" ⟨1, .unbalanced ')'⟩) ∧
    TypeTree.parse "az" = .error (.malformedSignature "az" ⟨1, .unknownLetter 0x7A⟩) := by
  have hfull : ∀ letter, descend letter (List.replicate 128 .array) = .error .tooDeep := fun _ =>
    descend_tooDeep_iff.2 (Nat.le_of_eq List.length_replicate.symm)
  have hbracket : OpeningDue _ 128 ')' _ := openingDue_arrays (Nat.le_refl _) rfl
  have hletter : OpeningDue _ 128 'z' _ := openingDue_arrays (Nat.le_refl _) rfl
  exact ⟨by decide, hbracket.parse_eq (hfull _), hletter.parse_eq (hfull _), rfl, rfl, rfl, rfl⟩

end Marshal.Signature.Parser
