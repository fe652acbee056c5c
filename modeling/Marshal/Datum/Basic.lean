import Marshal.Error

/-!
  Program data.

  `Datum` is a piece of data of a program, as the program hands it over piece by
  piece: numbers, text, optional data, sequences, structs with named fields, variants
  of an enumeration and maps. A map is handed over as a row of steps, each a key or
  a value. `Datum.toValue` turns data into a value of a message, or says which
  piece has none; pieces are taken in the order in which they are handed over.

  The operation is `to_value`: one constructor of `Datum` for each of the `serialize_` methods
  that differ, `fieldValues` for the fields of `serialize_struct`, and `mapEntries` for
  `serialize_key`, `serialize_value` and the `end` of a map. The other way, `Value.toDatum` is
  how a value serializes itself.
-/

namespace Marshal

namespace Datum

/-- The integer types of a program that no message type stands for. -/
inductive ExtraInt where
  | i8
  | i128
  | u128
deriving DecidableEq, Repr

namespace ExtraInt

def name : ExtraInt → String
  | .i8 => "i8"
  | .i128 => "i128"
  | .u128 => "u128"

def Contains (t : ExtraInt) (n : Int) : Prop :=
  match t with
  | .i8 => -0x80 ≤ n ∧ n < 0x80
  | .i128 => -0x80000000000000000000000000000000 ≤ n ∧ n < 0x80000000000000000000000000000000
  | .u128 => 0 ≤ n ∧ n < 0x100000000000000000000000000000000

instance (t : ExtraInt) (n : Int) : Decidable (t.Contains n) := by
  cases t <;> exact inferInstanceAs (Decidable (_ ∧ _))

end ExtraInt

end Datum

/-! ### Data -/

mutual

inductive Datum where
  | bool (b : Bool)
  | int (n : Integer)
  | extraInt (type : Datum.ExtraInt) (n : Int)
  | single (x : Single)
  | double (x : Double)
  | char (c : Char)
  | text (s : String)
  | bytes (bs : List UInt8)
  | absent
  | present (x : Datum)
  | unit
  | unitStruct (name : String)
  | newtypeStruct (name : String) (x : Datum)
  | sequence (xs : List Datum)
  | tuple (xs : List Datum)
  | tupleStruct (name : String) (xs : List Datum)
  | struct (name : String) (fields : List DatumField)
  | map (steps : List MapStep)
  | unitVariant (type : String) (index : Nat) (variant : String)
  | newtypeVariant (type : String) (index : Nat) (variant : String) (x : Datum)
  | tupleVariant (type : String) (index : Nat) (variant : String) (xs : List Datum)
  | structVariant (type : String) (index : Nat) (variant : String) (fields : List DatumField)
  /-- Data that refuses to be handed over. -/
  | refusing (reason : String)

inductive DatumField where
  | field (name : String) (x : Datum)

inductive MapStep where
  | key (x : Datum)
  | value (x : Datum)

end

namespace Datum

def stepsOf : List (Datum × Datum) → List MapStep
  | [] => []
  | (key, value) :: entries => .key key :: .value value :: stepsOf entries

/-! ### From data to values -/

def refuse {α : Type} (fault : Fault) : Except Error α := .error (.conversion fault)

mutual

/-- The value of a piece of data. Structs and tuples become structs by position,
    sequences become arrays, a map becomes an array of dict entries, and a variant
    without data becomes its name. -/
def toValue : Datum → Except Error Value
  | .bool b => .ok (.bool b)
  | .int n => .ok (.int n)
  | .extraInt type _ => refuse (.unsupported type.name)
  | .single x => .ok (.double x.toDouble)
  | .double x => .ok (.double x)
  | .char c => .ok (.text c.toString)
  | .text s => .ok (.text s)
  | .bytes bs => .ok (.array (bs.map Marshal.toValue))
  | .absent | .present _ => refuse (.unsupported "Option")
  | .unit => refuse (.unsupported "()")
  | .unitStruct name => refuse (.unsupported name)
  | .newtypeStruct _ x => x.toValue
  | .sequence xs => do
      let vs ← toValues xs
      return .array vs
  | .tuple xs => do
      let vs ← toValues xs
      return .struct vs
  | .tupleStruct _ xs => do
      let vs ← toValues xs
      return .struct vs
  | .struct _ fields => do
      let vs ← fieldValues fields
      return .struct vs
  | .map steps => do
      let entries ← mapEntries none steps
      return .array entries
  | .unitVariant _ _ variant => .ok (.text variant)
  | .newtypeVariant type _ _ _ => refuse (.unsupported type)
  | .tupleVariant type _ _ _ => refuse (.unsupported type)
  | .structVariant type _ _ _ => refuse (.unsupported type)
  | .refusing reason => refuse (.refused reason)

def toValues : List Datum → Except Error (List Value)
  | [] => .ok []
  | x :: xs => do
      let v ← x.toValue
      let vs ← toValues xs
      return v :: vs

def fieldValues : List DatumField → Except Error (List Value)
  | [] => .ok []
  | .field _ x :: fields => do
      let v ← x.toValue
      let vs ← fieldValues fields
      return v :: vs

/-- The entries of a map, where `pending` is the last key without a value. Every
    value is paired with the last key before it, and a key is used once. -/
def mapEntries (pending : Option Value) : List MapStep → Except Error (List Value)
  | [] => .ok []
  | .key x :: steps => do
      let key ← x.toValue
      mapEntries (some key) steps
  | .value x :: steps =>
      match pending with
      | none => refuse .valueWithoutKey
      | some key => do
          let value ← x.toValue
          let entries ← mapEntries none steps
          return .dictEntry key value :: entries

end

end Datum

/-! ### Values as data -/

namespace Value

mutual

/-- A value as program data: an array is a sequence, and a struct or a dict entry a
    tuple. -/
def toDatum : Value → Datum
  | .bool b => .bool b
  | .int n => .int n
  | .double x => .double x
  | .text s => .text s
  | .array vs => .sequence (toData vs)
  | .struct vs => .tuple (toData vs)
  | .dictEntry key value => .tuple [key.toDatum, value.toDatum]

def toData : List Value → List Datum
  | [] => []
  | v :: vs => v.toDatum :: toData vs

end

end Value

end Marshal
