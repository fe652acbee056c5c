import Marshal.Signature.TypeTree
import Marshal.Text.Utf8

/-!
  Reading a type from the letters of its signature.

  The reader takes one letter at a time. Its state is the stack of containers that
  are open, innermost first, and whether a type is awaited (`expecting`), a dict
  entry has both its types and awaits its bracket (`closing`), or the one type of
  the signature is there (`complete`). A letter that cannot continue the signature
  is refused where it stands, with a `Reason`, so the offset of a refusal is the
  number of letters that could be read.

  The operations are `parse_type`, with its depth limit as the room left on the stack (`begin`
  and `descend` make its tests in their order), and the tests of `parse` before and after it
  (`read`, and the step from `complete`).
-/

namespace Marshal.Signature.Parser

def maxDepth : Nat := 128

/-! ### Refusals -/

inductive Reason where
  | emptySignature
  | typeExpected
  | tooDeep
  | unterminatedStruct
  | emptyStruct
  | missingKey
  | missingValue
  | overfullEntry
  | unterminatedEntry
  | unbalanced (bracket : Char)
  | unknownLetter (lead : UInt8)
  | trailingLetters
deriving DecidableEq, Repr

def Reason.message : Reason → String
  | .emptySignature => "empty signature"
  | .typeExpected => "expected a type, found end of signature"
  | .tooDeep => s!"containers nested deeper than {maxDepth} levels"
  | .unterminatedStruct => "unterminated struct"
  | .emptyStruct => "struct without fields"
  | .missingKey => "dict entry without key type"
  | .missingValue => "dict entry without value type"
  | .overfullEntry => "dict entry with more than two types"
  | .unterminatedEntry => "unterminated dict entry"
  | .unbalanced bracket => s!"unbalanced '{bracket}'"
  | .unknownLetter lead => s!"unknown type character '{Char.ofNat lead.toNat}'"
  | .trailingLetters => "trailing characters after complete type"

structure Fault where
  offset : Nat
  reason : Reason
deriving DecidableEq, Repr

/-! ### The state of the reader -/

/-- A container whose closing bracket has not been read. -/
inductive Frame where
  | array
  /-- A struct with the fields read so far, last one first. -/
  | struct (fields : List TypeTree)
  /-- A dict entry, with its key type once that is read. -/
  | entry (key : Option TypeTree)
deriving DecidableEq

inductive State where
  /-- A type is awaited inside the open containers. -/
  | expecting (stack : List Frame)
  /-- The innermost dict entry has both its types. -/
  | closing (key value : TypeTree) (stack : List Frame)
  /-- The signature is read. -/
  | complete (type : TypeTree)
deriving DecidableEq

/-- The state after a type has been read in full. An array ends with its element
    type, so the array around the type is then read in full as well. -/
def deliver (type : TypeTree) : List Frame → State
  | [] => .complete type
  | .array :: stack => deliver (.array type) stack
  | .struct fields :: stack => .expecting (.struct (type :: fields) :: stack)
  | .entry none :: stack => .expecting (.entry (some type) :: stack)
  | .entry (some key) :: stack => .closing key type stack

/-- Opens the container that a letter stands for, or says why there is none. -/
def descend (letter : Char) (stack : List Frame) : Except Reason State :=
  if stack.length ≥ maxDepth then .error .tooDeep
  else if letter = 'a' then .ok (.expecting (.array :: stack))
  else if letter = '(' then .ok (.expecting (.struct [] :: stack))
  else if letter = '{' then .ok (.expecting (.entry none :: stack))
  else if letter = ')' ∨ letter = '}' then .error (.unbalanced letter)
  else .error (.unknownLetter (Text.Utf8.leadByte letter))

def begin (letter : Char) (stack : List Frame) : Except Reason State :=
  match ScalarType.ofLetter? letter with
  | some type => .ok (deliver (.scalar type) stack)
  | none => descend letter stack

def step (state : State) (letter : Char) : Except Reason State :=
  match state with
  | .complete _ => .error .trailingLetters
  | .closing key value stack =>
      if letter = '}' then .ok (deliver (.dictEntry key value) stack)
      else .error .overfullEntry
  | .expecting (.struct fields :: stack) =>
      if letter = ')' then
        if fields.isEmpty then .error .emptyStruct
        else .ok (deliver (.struct fields.reverse) stack)
      else begin letter (.struct fields :: stack)
  | .expecting (.entry key :: stack) =>
      if letter = '}' then .error (if key.isSome then .missingValue else .missingKey)
      else begin letter (.entry key :: stack)
  | .expecting stack => begin letter stack

/-- The type that was read when the letters end in a state. -/
def finish : State → Except Reason TypeTree
  | .complete type => .ok type
  | .closing .. => .error .unterminatedEntry
  | .expecting (.struct _ :: _) => .error .unterminatedStruct
  | .expecting _ => .error .typeExpected

/-! ### Whole signatures -/

def run (offset : Nat) (state : State) : List Char → Except Fault TypeTree
  | [] => (finish state).mapError (⟨offset, ·⟩)
  | letter :: rest =>
      match step state letter with
      | .ok next => run (offset + 1) next rest
      | .error reason => .error ⟨offset, reason⟩

def read (letters : List Char) : Except Fault TypeTree :=
  if letters.isEmpty then .error ⟨0, .emptySignature⟩
  else run 0 (.expecting []) letters

end Marshal.Signature.Parser
