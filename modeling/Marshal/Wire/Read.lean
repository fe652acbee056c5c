import Marshal.Error
import Marshal.Text.Utf8
import Marshal.Wire.Word

/-!
  Reading a value from bytes.

  The reader knows the bytes that are left and the offset of the first of them, and
  every refusal names an offset. It accepts only what writing produces: a boolean is
  zero or one, a text ends with a zero byte, has none inside and is UTF-8. The count
  of an array is checked against the bytes that are left before any element is read,
  so a message cannot announce more than it carries.

  The operations are `read` on scalar codes and type nodes, and `from_bytes`, over the `take`,
  `remaining` and `finish` of a reader.
-/

namespace Marshal.Wire

/-- The bytes that are left, and the offset of the first of them. -/
structure Input where
  offset : Nat
  rest : List UInt8
deriving DecidableEq, Repr

namespace Input

def remaining (input : Input) : Nat := input.rest.length

def take (count : Nat) (input : Input) : Except Error (List UInt8 × Input) :=
  if count ≤ input.remaining then
    .ok (input.rest.take count, ⟨input.offset + count, input.rest.drop count⟩)
  else .error (.corrupt input.offset (.missing (count - input.remaining)))

def word (order : ByteOrder) (width : Nat) (input : Input) : Except Error (Nat × Input) := do
  let (bytes, rest) ← input.take width
  return (order.ofBytes bytes, rest)

/-- Nothing may be left at the end. -/
def finish (input : Input) : Except Error Unit :=
  if input.remaining = 0 then .ok ()
  else .error (.corrupt input.offset (.trailing input.remaining))

end Input

def readText (offset : Nat) (bytes : List UInt8) : Except Error Value :=
  match bytes.findIdx? (· == 0) with
  | some index => .error (.corrupt (offset + index) .interiorNul)
  | none =>
      match Text.Utf8.decode bytes with
      | .ok cs => .ok (.text (String.ofList cs))
      | .error fault => .error (.utf8 offset fault)

def readScalar (order : ByteOrder) (type : ScalarType) (input : Input) :
    Except Error (Value × Input) :=
  match type with
  | .bool => do
      let (word, rest) ← input.word order 4
      match word with
      | 0 => return (.bool false, rest)
      | 1 => return (.bool true, rest)
      | other => .error (.notBoolean input.offset other)
  | .int c => do
      let (word, rest) ← input.word order c.width
      return (.ofWord c word, rest)
  | .double => do
      let (word, rest) ← input.word order 8
      return (.double ⟨word.toUInt64⟩, rest)
  | .text => do
      let (length, start) ← input.word order 4
      let (bytes, stop) ← start.take length
      let (terminator, rest) ← stop.take 1
      if terminator = [0] then
        let v ← readText start.offset bytes
        return (v, rest)
      else .error (.corrupt stop.offset .unterminatedText)

def readMany {α : Type} (readOne : Input → Except Error (α × Input)) :
    Nat → Input → Except Error (List α × Input)
  | 0, input => .ok ([], input)
  | count + 1, input => do
      let (a, input) ← readOne input
      let (as, input) ← readMany readOne count input
      return (a :: as, input)

/-- The room that an element takes for the check of a count: at least one byte, also where its type
    could do without. -/
def elementRoom (type : TypeTree) : Nat := max type.minSize 1

mutual

def read (order : ByteOrder) : TypeTree → Input → Except Error (Value × Input)
  | .scalar type, input => readScalar order type input
  | .array type, input => do
      let (count, rest) ← input.word order 4
      if count ≤ rest.remaining / elementRoom type then
        let (elements, rest) ← readMany (read order type) count rest
        return (.array elements, rest)
      else .error (.corrupt input.offset (.oversizedArray count type rest.remaining))
  | .struct types, input => do
      let (fields, rest) ← readFields order types input
      return (.struct fields, rest)
  | .dictEntry keyType valueType, input => do
      let (key, input) ← read order keyType input
      let (value, input) ← read order valueType input
      return (.dictEntry key value, input)

def readFields (order : ByteOrder) :
    List TypeTree → Input → Except Error (List Value × Input)
  | [], input => .ok ([], input)
  | type :: types, input => do
      let (v, input) ← read order type input
      let (vs, input) ← readFields order types input
      return (v :: vs, input)

end

/-! ### Whole messages -/

def whole (readOne : Input → Except Error (Value × Input)) (bytes : List UInt8) :
    Except Error Value := do
  let (v, rest) ← readOne ⟨0, bytes⟩
  rest.finish
  return v

def decode (order : ByteOrder) (type : TypeTree) (bytes : List UInt8) : Except Error Value :=
  whole (read order type) bytes

def decodeScalar (order : ByteOrder) (type : ScalarType) (bytes : List UInt8) :
    Except Error Value :=
  whole (readScalar order type) bytes

end Marshal.Wire
