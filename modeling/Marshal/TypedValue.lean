import Marshal.Datum.Shape
import Marshal.Signature.Basic
import Marshal.Wire.Read
import Marshal.Wire.Write

/-!
  Values with their signatures.

  A `TypedValue` is a value that fits its signature. It is made from a value, from
  program data or from bytes, and each way checks it. Its bytes and the text of its
  signature are enough to get it back.

  The operations are those of a variant: `with_context` and `with_signature` (`ofValue`),
  `new` (`check`), `encode_with_context` and `encode` (`ofDatum`, `encode`),
  `from_bytes_with_signature` and `from_bytes` (`ofBytes`, `decode`), `to_bytes`, `decode`
  (`readAs`), `key`, `entry_value` and `children`.
-/

namespace Marshal

structure TypedValue where
  signature : Signature
  value : Value
deriving Repr

namespace TypedValue

/-- Two typed values are the same when the texts of their signatures and their
    values are. -/
instance : BEq TypedValue := ⟨fun a b => a.signature == b.signature && a.value == b.value⟩

/-! ### Making typed values -/

def ofValue (settings : Settings) (signature : Signature) (value : Value) :
    Except Error TypedValue :=
  (conform settings.coercion signature.root value).map (⟨signature, ·⟩)

def ofDatum (settings : Settings) (signature : Signature) (x : Datum) :
    Except Error TypedValue := do
  ofValue settings signature (← x.toValue)

def ofBytes (settings : Settings) (signature : Signature) (bytes : List UInt8) :
    Except Error TypedValue :=
  (Wire.decode settings.order signature.root bytes).map (⟨signature, ·⟩)

/-- A value, checked against the signature with a given text. -/
def check (settings : Settings) (text : String) (value : Value) : Except Error TypedValue := do
  ofValue settings (← Signature.parse text) value

/-- The value of program data, checked against the signature with a given text. -/
def encode (settings : Settings) (text : String) (x : Datum) : Except Error TypedValue := do
  ofDatum settings (← Signature.parse text) x

/-- The value of the signature with a given text that bytes hold. -/
def decode (settings : Settings) (text : String) (bytes : List UInt8) :
    Except Error TypedValue := do
  ofBytes settings (← Signature.parse text) bytes

/-! ### Using typed values -/

def type (a : TypedValue) : TypeTree := a.signature.root

def toBytes (settings : Settings) (a : TypedValue) : Except Error (List UInt8) :=
  Wire.write settings.order a.type a.value

/-- What a type of a program makes of the value. -/
def readAs {α : Type} (reading : Datum.Reading α) (a : TypedValue) : Except Error α :=
  reading.read a.value

def toDatum (shape : Shape) (a : TypedValue) : Except Error Datum := a.readAs shape.reading

def refusePart {α : Type} (a : TypedValue) (part : Part) : Except Error α :=
  .error (.noSuchPart a.signature.text part)

def key (a : TypedValue) : Except Error Value :=
  match a.value with
  | .dictEntry key _ => .ok key
  | _ => a.refusePart .key

def entryValue (a : TypedValue) : Except Error Value :=
  match a.value with
  | .dictEntry _ value => .ok value
  | _ => a.refusePart .entryValue

def children (a : TypedValue) : Except Error (List Value) :=
  match a.value with
  | .array vs | .struct vs => .ok vs
  | _ => a.refusePart .children

end TypedValue

end Marshal
