import Marshal.Number.Double
import Marshal.Number.Integer
import Marshal.Signature.TypeTree

/-!
  Values of messages.

  A `Value` is a scalar, an array, a struct or a dict entry. It carries no
  signature: the elements of an array may differ in type and a struct may be
  empty. Doubles are compared by their bits. The class `ToValue` builds values
  from the numbers, texts and lists of a program.

  The operations are `scalar_code`, `is_scalar`, the accessors `as_bool` to `as_dict_entry`,
  the constructors `array`, `structure` and `entry`, and the conversions into a value.
-/

namespace Marshal

inductive Value where
  | bool (b : Bool)
  | int (n : Integer)
  | double (x : Double)
  | text (s : String)
  | array (elements : List Value)
  | struct (fields : List Value)
  | dictEntry (key value : Value)
deriving Repr

namespace Value

/-! ### Equality -/

mutual

protected def decEq : (v w : Value) → Decidable (v = w)
  | .bool a, .bool b =>
      if h : a = b then isTrue (h ▸ rfl) else isFalse fun e => h (Value.bool.inj e)
  | .int a, .int b =>
      if h : a = b then isTrue (h ▸ rfl) else isFalse fun e => h (Value.int.inj e)
  | .double a, .double b =>
      if h : a = b then isTrue (h ▸ rfl) else isFalse fun e => h (Value.double.inj e)
  | .text a, .text b =>
      if h : a = b then isTrue (h ▸ rfl) else isFalse fun e => h (Value.text.inj e)
  | .array as, .array bs =>
      match Value.decEqList as bs with
      | isTrue h => isTrue (h ▸ rfl)
      | isFalse h => isFalse fun e => h (Value.array.inj e)
  | .struct as, .struct bs =>
      match Value.decEqList as bs with
      | isTrue h => isTrue (h ▸ rfl)
      | isFalse h => isFalse fun e => h (Value.struct.inj e)
  | .dictEntry k v, .dictEntry l w =>
      match Value.decEq k l, Value.decEq v w with
      | isTrue h, isTrue i => isTrue (h ▸ i ▸ rfl)
      | isFalse h, _ => isFalse fun e => h (Value.dictEntry.inj e).1
      | _, isFalse i => isFalse fun e => i (Value.dictEntry.inj e).2
  | .bool _, .int _ | .bool _, .double _ | .bool _, .text _ | .bool _, .array _
  | .bool _, .struct _ | .bool _, .dictEntry .. => isFalse nofun
  | .int _, .bool _ | .int _, .double _ | .int _, .text _ | .int _, .array _
  | .int _, .struct _ | .int _, .dictEntry .. => isFalse nofun
  | .double _, .bool _ | .double _, .int _ | .double _, .text _ | .double _, .array _
  | .double _, .struct _ | .double _, .dictEntry .. => isFalse nofun
  | .text _, .bool _ | .text _, .int _ | .text _, .double _ | .text _, .array _
  | .text _, .struct _ | .text _, .dictEntry .. => isFalse nofun
  | .array _, .bool _ | .array _, .int _ | .array _, .double _ | .array _, .text _
  | .array _, .struct _ | .array _, .dictEntry .. => isFalse nofun
  | .struct _, .bool _ | .struct _, .int _ | .struct _, .double _ | .struct _, .text _
  | .struct _, .array _ | .struct _, .dictEntry .. => isFalse nofun
  | .dictEntry .., .bool _ | .dictEntry .., .int _ | .dictEntry .., .double _
  | .dictEntry .., .text _ | .dictEntry .., .array _ | .dictEntry .., .struct _ => isFalse nofun

protected def decEqList : (vs ws : List Value) → Decidable (vs = ws)
  | [], [] => isTrue rfl
  | [], _ :: _ | _ :: _, [] => isFalse nofun
  | v :: vs, w :: ws =>
      match Value.decEq v w, Value.decEqList vs ws with
      | isTrue h, isTrue i => isTrue (h ▸ i ▸ rfl)
      | isFalse h, _ => isFalse fun e => h (List.cons.inj e).1
      | _, isFalse i => isFalse fun e => i (List.cons.inj e).2

end

instance : DecidableEq Value := Value.decEq

/-! ### Parts of a value -/

def scalarType? : Value → Option ScalarType
  | .bool _ => some .bool
  | .int n => some (.int n.type)
  | .double _ => some .double
  | .text _ => some .text
  | .array _ | .struct _ | .dictEntry .. => none

def isScalar (v : Value) : Bool := v.scalarType?.isSome

def bool? : Value → Option Bool
  | .bool b => some b
  | _ => none

def int? (type : IntType) : Value → Option Int
  | .int n => if n.type = type then some n.val else none
  | _ => none

def double? : Value → Option Double
  | .double x => some x
  | _ => none

def text? : Value → Option String
  | .text s => some s
  | _ => none

def elements? : Value → Option (List Value)
  | .array vs => some vs
  | _ => none

def fields? : Value → Option (List Value)
  | .struct vs => some vs
  | _ => none

def entry? : Value → Option (Value × Value)
  | .dictEntry k v => some (k, v)
  | _ => none

end Value

/-! ### Values of program data -/

/-- The data of a program that is a value of a message as it stands. -/
class ToValue (α : Type) where
  /-- The value of a piece of data. -/
  toValue : α → Value

export ToValue (toValue)

namespace Value

def ofWord (type : IntType) (word : Nat) : Value := .int (.ofWord type word)

def ofElements {α : Type} [ToValue α] (xs : List α) : Value := .array (xs.map toValue)

def ofFields {α : Type} [ToValue α] (xs : List α) : Value := .struct (xs.map toValue)

def ofEntry {α β : Type} [ToValue α] [ToValue β] (key : α) (value : β) : Value :=
  .dictEntry (toValue key) (toValue value)

end Value

instance : ToValue Value := ⟨id⟩
instance : ToValue Bool := ⟨.bool⟩
instance : ToValue UInt8 := ⟨fun n => .ofWord .byte n.toNat⟩
instance : ToValue Int16 := ⟨fun n => .ofWord .int16 n.toUInt16.toNat⟩
instance : ToValue UInt16 := ⟨fun n => .ofWord .uint16 n.toNat⟩
instance : ToValue Int32 := ⟨fun n => .ofWord .int32 n.toUInt32.toNat⟩
instance : ToValue UInt32 := ⟨fun n => .ofWord .uint32 n.toNat⟩
instance : ToValue Int64 := ⟨fun n => .ofWord .int64 n.toUInt64.toNat⟩
instance : ToValue UInt64 := ⟨fun n => .ofWord .uint64 n.toNat⟩
instance : ToValue Double := ⟨.double⟩
instance : ToValue Single := ⟨fun x => .double x.toDouble⟩
instance : ToValue String := ⟨.text⟩
instance : ToValue Char := ⟨fun c => .text c.toString⟩
instance {α : Type} [ToValue α] : ToValue (List α) := ⟨Value.ofElements⟩

end Marshal
