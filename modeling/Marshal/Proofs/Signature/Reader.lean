import Marshal.Proofs.Result
import Marshal.Signature.Basic

/-!
  What the reader of signatures knows between two letters.

  A state of the reader stands for the letters that led to it (`State.letters`): one
  more letter extends them by that letter and nothing else (`Move.letters_eq`). Every
  type inside a state fits under the limit of nesting and has no empty struct
  (`State.Admissible`), and reading a letter keeps it so (`Move.admissible`). Both
  facts carry over to whole runs by induction on the letters.
-/

namespace Marshal

namespace TypeTree

mutual

def noEmptyStruct : TypeTree → Bool
  | .scalar _ => true
  | .array t => t.noEmptyStruct
  | .struct ts => !ts.isEmpty && fieldsNoEmptyStruct ts
  | .dictEntry k v => k.noEmptyStruct && v.noEmptyStruct

def fieldsNoEmptyStruct : List TypeTree → Bool
  | [] => true
  | t :: ts => t.noEmptyStruct && fieldsNoEmptyStruct ts

end

theorem fieldsLetters_append (ss ts : List TypeTree) :
    fieldsLetters (ss ++ ts) = fieldsLetters ss ++ fieldsLetters ts := by
  induction ss with
  | nil => rfl
  | cons s ss ih => simp [fieldsLetters, ih]

theorem fieldsNoEmptyStruct_iff {ts : List TypeTree} :
    fieldsNoEmptyStruct ts ↔ ∀ t ∈ ts, t.noEmptyStruct := by
  induction ts with
  | nil => simp [fieldsNoEmptyStruct]
  | cons t ts ih => simp [fieldsNoEmptyStruct, ih]

end TypeTree

namespace Signature.Parser

/-! ### Types that may stand inside open containers -/

/-- Whether a type may stand inside a number of containers: it has no empty struct
    and its own containers do not exceed the limit. -/
def Fits (level : Nat) (t : TypeTree) : Prop :=
  t.noEmptyStruct ∧ level + t.depth ≤ maxDepth

theorem Fits.level_le {level : Nat} {t : TypeTree} (h : Fits level t) : level ≤ maxDepth :=
  Nat.le_trans (Nat.le_add_right ..) h.2

theorem fits_scalar {level : Nat} {c : ScalarType} (h : level ≤ maxDepth) :
    Fits level (.scalar c) :=
  ⟨rfl, h⟩

theorem fits_array {level : Nat} {t : TypeTree} :
    Fits level (.array t) ↔ Fits (level + 1) t := by
  simp only [Fits, TypeTree.noEmptyStruct, TypeTree.depth]
  refine and_congr_right fun _ => ?_
  omega

theorem fits_struct {level : Nat} {ts : List TypeTree} :
    Fits level (.struct ts) ↔
      level < maxDepth ∧ ts ≠ [] ∧ ∀ t ∈ ts, Fits (level + 1) t := by
  have depths : level + (TypeTree.fieldsDepth ts + 1) ≤ maxDepth ↔
      level < maxDepth ∧ ∀ t ∈ ts, level + 1 + t.depth ≤ maxDepth := by
    have := TypeTree.fieldsDepth_le_iff ts (maxDepth - (level + 1))
    constructor
    · intro h
      refine ⟨by omega, fun t ht => ?_⟩
      have := this.1 (by omega) t ht
      omega
    · intro h
      rcases h with ⟨hlevel, h⟩
      have := this.2 fun t ht => by have := h t ht; omega
      omega
  simp only [Fits, TypeTree.noEmptyStruct, TypeTree.depth, depths, Bool.and_eq_true,
    TypeTree.fieldsNoEmptyStruct_iff, Bool.not_eq_true', List.isEmpty_eq_false_iff]
  constructor
  · intro h
    rcases h with ⟨⟨hne, hstructs⟩, hlevel, hdepth⟩
    exact ⟨hlevel, hne, fun t ht => ⟨hstructs t ht, hdepth t ht⟩⟩
  · intro h
    rcases h with ⟨hlevel, hne, h⟩
    exact ⟨⟨hne, fun t ht => (h t ht).1⟩, hlevel, fun t ht => (h t ht).2⟩

theorem fits_dictEntry {level : Nat} {k v : TypeTree} :
    Fits level (.dictEntry k v) ↔ Fits (level + 1) k ∧ Fits (level + 1) v := by
  simp only [Fits, TypeTree.noEmptyStruct, TypeTree.depth, Bool.and_eq_true]
  constructor
  · intro h
    rcases h with ⟨⟨hk, hv⟩, h⟩
    exact ⟨⟨hk, by omega⟩, ⟨hv, by omega⟩⟩
  · intro h
    rcases h with ⟨⟨hk, hkd⟩, hv, hvd⟩
    exact ⟨⟨hk, hv⟩, by omega⟩

/-! ### The letters behind a state -/

/-- The letters that were read since a container was opened, the letter that opens
    it included. -/
def Frame.letters : Frame → List Char
  | .array => ['a']
  | .struct fields => '(' :: TypeTree.fieldsLetters fields.reverse
  | .entry none => ['{']
  | .entry (some key) => '{' :: key.letters

def stackLetters : List Frame → List Char
  | [] => []
  | frame :: stack => stackLetters stack ++ frame.letters

def State.letters : State → List Char
  | .expecting stack => stackLetters stack
  | .closing key value stack => stackLetters stack ++ '{' :: (key.letters ++ value.letters)
  | .complete type => type.letters

theorem letters_deliver (t : TypeTree) (stack : List Frame) :
    (deliver t stack).letters = stackLetters stack ++ t.letters := by
  fun_induction deliver t stack with
  | case1 t => rfl
  | case2 t stack ih => simp [ih, stackLetters, Frame.letters, TypeTree.letters]
  | case3 t fields stack =>
    simp [State.letters, stackLetters, Frame.letters, TypeTree.fieldsLetters_append,
      TypeTree.fieldsLetters]
  | case4 t stack => simp [State.letters, stackLetters, Frame.letters]
  | case5 t key stack => simp [State.letters, stackLetters, Frame.letters]

/-- The containers that a letter can open. -/
def opened? (letter : Char) : Option Frame :=
  if letter = 'a' then some .array
  else if letter = '(' then some (.struct [])
  else if letter = '{' then some (.entry none)
  else none

theorem letters_of_opened {letter : Char} {frame : Frame} (h : opened? letter = some frame) :
    frame.letters = [letter] := by
  unfold opened? at h
  split at h
  · next ha => cases h; rw [ha]; rfl
  · split at h
    · next hs => cases h; rw [hs]; rfl
    · split at h
      · next he => cases h; rw [he]; rfl
      · cases h

theorem descend_ok_iff {letter : Char} {stack : List Frame} {next : State} :
    descend letter stack = .ok next ↔
      stack.length < maxDepth ∧ ∃ frame, opened? letter = some frame ∧
        next = .expecting (frame :: stack) := by
  simp only [descend, opened?]
  split
  · next h => simp only [reduceCtorEq, false_iff]; omega
  · next h =>
    have hlt : stack.length < maxDepth := Nat.lt_of_not_le h
    grind

/-! ### One letter -/

/-- What reading a letter does, where the letter can be read. -/
inductive Move : State → Char → State → Prop where
  /-- The letter is a scalar type. -/
  | scalar {letter : Char} {type : ScalarType} {stack : List Frame} :
      ScalarType.ofLetter? letter = some type →
      Move (.expecting stack) letter (deliver (.scalar type) stack)
  /-- The letter opens a container that may still be opened. -/
  | opening {letter : Char} {frame : Frame} {stack : List Frame} :
      opened? letter = some frame → stack.length < maxDepth →
      Move (.expecting stack) letter (.expecting (frame :: stack))
  /-- The letter closes a struct that has a field. -/
  | closeStruct {fields : List TypeTree} {stack : List Frame} :
      fields ≠ [] →
      Move (.expecting (.struct fields :: stack)) ')' (deliver (.struct fields.reverse) stack)
  /-- The letter closes a dict entry that has both its types. -/
  | closeEntry {key value : TypeTree} {stack : List Frame} :
      Move (.closing key value stack) '}' (deliver (.dictEntry key value) stack)

theorem begin_ok_iff {letter : Char} {stack : List Frame} {next : State} :
    begin letter stack = .ok next ↔
      (∃ type, ScalarType.ofLetter? letter = some type ∧
        next = deliver (.scalar type) stack) ∨
      (stack.length < maxDepth ∧ ∃ frame, opened? letter = some frame ∧
        next = .expecting (frame :: stack)) := by
  unfold begin
  split
  · next type h =>
    have hnone : opened? letter = none := by
      rw [← ScalarType.letter_of_ofLetter? h]
      cases type with
      | int c => cases c <;> rfl
      | _ => rfl
    simp [h, hnone, eq_comm]
  · next h => simp [h, descend_ok_iff]

theorem begin_ok_of_move {stack : List Frame} {letter : Char} {next : State}
    (h : begin letter stack = .ok next) : Move (.expecting stack) letter next := by
  rcases begin_ok_iff.1 h with ⟨type, htype, rfl⟩ | ⟨hlt, frame, hframe, rfl⟩
  · exact .scalar htype
  · exact .opening hframe hlt

/-- A letter that begins a type is no closing bracket, so the container around it
    does not take it for its own. -/
theorem step_of_begin {stack : List Frame} {letter : Char} {next : State}
    (h : begin letter stack = .ok next) : step (.expecting stack) letter = .ok next := by
  have hclose : letter ≠ ')' ∧ letter ≠ '}' := by
    constructor <;> rintro rfl <;> simp [begin_ok_iff, opened?, ScalarType.ofLetter?] at h
  unfold step
  split <;> simp_all

theorem step_ok_iff {state next : State} {letter : Char} :
    step state letter = .ok next ↔ Move state letter next := by
  constructor
  · intro h
    unfold step at h
    split at h
    · cases h
    · next key value stack =>
      split at h
      · next hletter => cases h; rw [hletter]; exact .closeEntry
      · cases h
    · next fields stack =>
      split at h
      · next hletter =>
        split at h
        · cases h
        · next hne => cases h; rw [hletter]; exact .closeStruct (by simpa using hne)
      · exact begin_ok_of_move h
    · split at h
      · cases h
      · exact begin_ok_of_move h
    · exact begin_ok_of_move h
  · intro h
    cases h with
    | scalar htype => exact step_of_begin (begin_ok_iff.2 (.inl ⟨_, htype, rfl⟩))
    | opening hframe hlt => exact step_of_begin (begin_ok_iff.2 (.inr ⟨hlt, _, hframe, rfl⟩))
    | closeStruct hne => simp [step, hne]
    | closeEntry => simp [step]

/-- Reading a letter puts it behind the letters that led to the state. -/
theorem Move.letters_eq {state next : State} {letter : Char} (h : Move state letter next) :
    next.letters = state.letters ++ [letter] := by
  cases h with
  | scalar htype =>
    rw [letters_deliver, TypeTree.letters, ScalarType.letter_of_ofLetter? htype]
    rfl
  | opening hframe _ =>
    simp only [State.letters, stackLetters, letters_of_opened hframe]
  | closeStruct _ =>
    rw [letters_deliver]
    simp [State.letters, stackLetters, Frame.letters, TypeTree.letters]
  | closeEntry =>
    rw [letters_deliver]
    simp [State.letters, TypeTree.letters]

/-! ### Types inside a state -/

def Frame.Admissible (level : Nat) : Frame → Prop
  | .array => True
  | .struct fields => ∀ t ∈ fields, Fits level t
  | .entry key => ∀ t ∈ key, Fits level t

/-- Whether the open containers do not exceed the limit and the types inside them may
    stand there. -/
def StackAdmissible : List Frame → Prop
  | [] => True
  | frame :: stack =>
      stack.length < maxDepth ∧ frame.Admissible (stack.length + 1) ∧ StackAdmissible stack

def State.Admissible : State → Prop
  | .expecting stack => StackAdmissible stack
  | .closing key value stack => StackAdmissible (.entry (some key) :: stack) ∧
      Fits (stack.length + 1) value
  | .complete type => Fits 0 type

theorem StackAdmissible.length_le {stack : List Frame} (h : StackAdmissible stack) :
    stack.length ≤ maxDepth := by
  cases stack with
  | nil => exact Nat.zero_le _
  | cons frame stack => exact h.1

theorem admissible_deliver {t : TypeTree} {stack : List Frame} (hstack : StackAdmissible stack)
    (ht : Fits stack.length t) : (deliver t stack).Admissible := by
  fun_induction deliver t stack with
  | case1 t => exact ht
  | case2 t stack ih => exact ih hstack.2.2 (fits_array.2 ht)
  | case3 t fields stack =>
    refine ⟨hstack.1, ?_, hstack.2.2⟩
    intro u hu
    rcases List.mem_cons.1 hu with rfl | hu
    · exact ht
    · exact hstack.2.1 u hu
  | case4 t stack => exact ⟨hstack.1, by simpa [Frame.Admissible] using ht, hstack.2.2⟩
  | case5 t key stack => exact ⟨hstack, ht⟩

/-- Reading a letter keeps every type where it may stand. -/
theorem Move.admissible {state next : State} {letter : Char} (h : Move state letter next)
    (hstate : state.Admissible) : next.Admissible := by
  cases h with
  | scalar _ => exact admissible_deliver hstate (fits_scalar hstate.length_le)
  | opening hframe hlt =>
    refine ⟨hlt, ?_, hstate⟩
    unfold opened? at hframe
    grind [Frame.Admissible]
  | closeStruct hne =>
    obtain ⟨hlt, hfields, hstack⟩ := hstate
    refine admissible_deliver hstack (fits_struct.2 ⟨hlt, by simpa using hne, ?_⟩)
    intro t ht
    exact hfields t (List.mem_reverse.1 ht)
  | closeEntry =>
    obtain ⟨⟨hlt, hkey, hstack⟩, hvalue⟩ := hstate
    exact admissible_deliver hstack (fits_dictEntry.2 ⟨hkey _ rfl, hvalue⟩)

/-! ### Whole runs -/

/-- The states that a row of letters leads through, one move for each letter. -/
inductive Moves : State → List Char → State → Prop where
  | done {state : State} : Moves state [] state
  | more {state next last : State} {letter : Char} {rest : List Char} :
      Move state letter next → Moves next rest last → Moves state (letter :: rest) last

theorem Moves.append {state next last : State} {front back : List Char}
    (h : Moves state front next) (hback : Moves next back last) :
    Moves state (front ++ back) last := by
  induction h with
  | done => exact hback
  | more hmove _ ih => exact .more hmove (ih hback)

theorem Moves.letters_eq {state last : State} {letters : List Char}
    (h : Moves state letters last) : last.letters = state.letters ++ letters := by
  induction h with
  | done => simp
  | more hmove _ ih => simp [ih, hmove.letters_eq]

theorem Moves.admissible {state last : State} {letters : List Char}
    (h : Moves state letters last) (hstate : state.Admissible) : last.Admissible := by
  induction h with
  | done => exact hstate
  | more hmove _ ih => exact ih (hmove.admissible hstate)

theorem finish_ok_iff {state : State} {t : TypeTree} :
    finish state = .ok t ↔ state = .complete t := by
  unfold finish
  split <;> simp

/-- The reader accepts the letters that its moves lead through to the end. -/
theorem run_ok_iff {offset : Nat} {state : State} {letters : List Char} {t : TypeTree} :
    run offset state letters = .ok t ↔ Moves state letters (.complete t) := by
  induction letters generalizing offset state with
  | nil =>
    rw [run, mapError_ok_iff, finish_ok_iff]
    constructor
    · rintro rfl
      exact .done
    · intro h
      cases h
      rfl
  | cons letter rest ih =>
    rw [run]
    constructor
    · intro h
      split at h
      · next next hstep => exact .more (step_ok_iff.1 hstep) (ih.1 h)
      · cases h
    · intro h
      cases h with
      | more hmove hrest =>
        rw [step_ok_iff.2 hmove]
        exact ih.2 hrest

/-- A text spells a type when its letters lead from the start to that type. -/
theorem parse_ok_iff_moves {text : String} {t : TypeTree} :
    TypeTree.parse text = .ok t ↔ Moves (.expecting []) text.toList (.complete t) := by
  rw [TypeTree.parse, mapError_ok_iff, read]
  split
  · next hempty =>
    rw [List.isEmpty_iff.1 hempty]
    exact ⟨nofun, nofun⟩
  · exact run_ok_iff

theorem fits_of_parse {text : String} {t : TypeTree} (h : TypeTree.parse text = .ok t) :
    Fits 0 t :=
  (parse_ok_iff_moves.1 h).admissible trivial

end Signature.Parser

end Marshal
