/-!
  The scalar types of a message.

  A signature names each scalar type by one letter. `IntType` holds the seven
  integer types with the range each can hold, `ScalarType` adds booleans, doubles
  and text. `ScalarType.ofLetter?` and `ScalarType.letter` are inverse to each other
  (`ofLetter?_letter`, `letter_of_ofLetter?`).

  The operations are `tag`, `from_tag`, `name`, `wire_size` and `min_wire_size` of a scalar
  code.
-/

namespace Marshal

/-! ### Integer types -/

inductive IntType where
  | byte
  | int16
  | uint16
  | int32
  | uint32
  | int64
  | uint64
deriving DecidableEq, Repr

namespace IntType

def width : IntType → Nat
  | .byte => 1
  | .int16 | .uint16 => 2
  | .int32 | .uint32 => 4
  | .int64 | .uint64 => 8

def signed : IntType → Bool
  | .int16 | .int32 | .int64 => true
  | .byte | .uint16 | .uint32 | .uint64 => false

def modulus (c : IntType) : Nat := Nat.pow 256 c.width

def lo (c : IntType) : Int := if c.signed then -(c.modulus / 2 : Nat) else 0

def hi (c : IntType) : Int := (if c.signed then (c.modulus / 2 : Nat) else c.modulus) - 1

def Contains (c : IntType) (n : Int) : Prop := c.lo ≤ n ∧ n ≤ c.hi

instance (c : IntType) (n : Int) : Decidable (c.Contains n) :=
  inferInstanceAs (Decidable (_ ∧ _))

end IntType

/-! ### Scalar types -/

inductive ScalarType where
  | bool
  | int (type : IntType)
  | double
  | text
deriving DecidableEq, Repr

namespace ScalarType

/-- Every scalar type once, in the order of the listing of the format. -/
def all : List ScalarType :=
  [.bool, .int .byte, .int .int16, .int .uint16, .int .int32, .int .uint32, .int .int64,
    .int .uint64, .double, .text]

def letter : ScalarType → Char
  | .bool => 'b'
  | .int .byte => 'y'
  | .int .int16 => 'n'
  | .int .uint16 => 'q'
  | .int .int32 => 'i'
  | .int .uint32 => 'u'
  | .int .int64 => 'x'
  | .int .uint64 => 't'
  | .double => 'd'
  | .text => 's'

def ofLetter? (letter : Char) : Option ScalarType :=
  match letter with
  | 'b' => some .bool
  | 'y' => some (.int .byte)
  | 'n' => some (.int .int16)
  | 'q' => some (.int .uint16)
  | 'i' => some (.int .int32)
  | 'u' => some (.int .uint32)
  | 'x' => some (.int .int64)
  | 't' => some (.int .uint64)
  | 'd' => some .double
  | 's' => some .text
  | _ => none

def name : ScalarType → String
  | .bool => "bool"
  | .int .byte => "byte"
  | .int .int16 => "int16"
  | .int .uint16 => "uint16"
  | .int .int32 => "int32"
  | .int .uint32 => "uint32"
  | .int .int64 => "int64"
  | .int .uint64 => "uint64"
  | .double => "double"
  | .text => "string"

def title : ScalarType → String
  | .bool => "Boolean"
  | .int .byte => "Byte"
  | .int .int16 => "Int16"
  | .int .uint16 => "UInt16"
  | .int .int32 => "Int32"
  | .int .uint32 => "UInt32"
  | .int .int64 => "Int64"
  | .int .uint64 => "UInt64"
  | .double => "Double"
  | .text => "String"

/-- The number of bytes of a scalar on the wire. Text has no fixed size. -/
def fixedSize? : ScalarType → Option Nat
  | .bool => some 4
  | .int c => some c.width
  | .double => some 8
  | .text => none

/-- The fewest bytes a scalar can take on the wire. Empty text still has its
    length in four bytes and its terminator. -/
def minSize (c : ScalarType) : Nat := c.fixedSize?.getD 5

@[simp]
theorem ofLetter?_letter (c : ScalarType) : ofLetter? c.letter = some c := by
  cases c with
  | int t => cases t <;> rfl
  | _ => rfl

theorem letter_of_ofLetter? {letter : Char} {c : ScalarType} (h : ofLetter? letter = some c) :
    c.letter = letter := by
  unfold ofLetter? at h
  split at h <;> first | cases h; rfl | cases h

end ScalarType

end Marshal
