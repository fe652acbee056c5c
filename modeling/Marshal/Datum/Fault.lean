import Marshal.Value.Display

/-!
  Why program data and values do not fit each other.

  A `Fault` is a cause, and `Fault.message` is the one place where causes become
  text. `Found` is what was there and `Expectation` is what was asked for.

  The operations are `unsupported` and what the two `custom` constructors of errors are told.
-/

namespace Marshal.Datum

/-- How the variants of an enumeration carry data. -/
inductive VariantKind where
  | unit
  | newtype
  | tuple
  | struct
deriving DecidableEq, Repr

def VariantKind.name : VariantKind → String
  | .unit => "unit variant"
  | .newtype => "newtype variant"
  | .tuple => "tuple variant"
  | .struct => "struct variant"

inductive Found where
  | bool (b : Bool)
  | int (n : Int)
  | double (x : Double)
  | text (s : String)
  | bytes
  | optional
  | newtypeStruct
  | sequence
  | map
  | enumeration
  | variant (kind : VariantKind)
  | value (v : Value)
deriving DecidableEq

def Found.message : Found → String
  | .bool b => s!"boolean `{b}`"
  | .int n => s!"integer `{n}`"
  | .double x => s!"floating point `{x.positionalText}`"
  | .text s => "string " ++ Text.quoted s
  | .bytes => "byte array"
  | .optional => "Option value"
  | .newtypeStruct => "newtype struct"
  | .sequence => "sequence"
  | .map => "map"
  | .enumeration => "enum"
  | .variant kind => kind.name
  | .value v => v.describe

inductive Expectation where
  | boolean
  | number (type : String)
  | character
  | text
  | unit
  | optional
  | sequence
  | map
  | enumeration (name : String)
  | tuple (size : Nat)
  | array (size : Nat)
  | struct (name : String)
  | tupleStruct (name : String)
  | unitStruct (name : String)
  | structOfSize (name : String) (size : Nat)
  | tupleStructOfSize (name : String) (size : Nat)
  | fewerElements
  | dictEntry
  | variantName
  | variant (kind : VariantKind)
deriving DecidableEq, Repr

def elementCount : Nat → String
  | 1 => "1 element"
  | n => s!"{n} elements"

def Expectation.message : Expectation → String
  | .boolean => "a boolean"
  | .number type => type
  | .character => "a character"
  | .text => "a string"
  | .unit => "unit"
  | .optional => "option"
  | .sequence => "a sequence"
  | .map => "a map"
  | .enumeration name => s!"enum {name}"
  | .tuple size => s!"a tuple of size {size}"
  | .array 0 => "an empty array"
  | .array size => s!"an array of length {size}"
  | .struct name => s!"struct {name}"
  | .tupleStruct name => s!"tuple struct {name}"
  | .unitStruct name => s!"unit struct {name}"
  | .structOfSize name size => s!"struct {name} with {elementCount size}"
  | .tupleStructOfSize name size => s!"tuple struct {name} with {elementCount size}"
  | .fewerElements => "fewer elements"
  | .dictEntry => "a dict entry"
  | .variantName => "a unit variant name"
  | .variant kind => kind.name

inductive Fault where
  /-- Data of this kind has no value. -/
  | unsupported (what : String)
  /-- The data refused to be converted. -/
  | refused (reason : String)
  | valueWithoutKey
  | valueBeforeKey
  | entriesLeft (count : Nat)
  | invalidType (found : Found) (expected : Expectation)
  | invalidValue (found : Found) (expected : Expectation)
  | invalidLength (length : Nat) (expected : Expectation)
  | unknownVariant (name : String) (known : List String)
deriving DecidableEq

def alternatives : List String → String
  | [] => "there are no variants"
  | [a] => s!"expected `{a}`"
  | [a, b] => s!"expected `{a}` or `{b}`"
  | names => "expected one of " ++ ", ".intercalate (names.map fun n => s!"`{n}`")

def Fault.message : Fault → String
  | .unsupported what => s!"{what} cannot be represented as a message argument"
  | .refused reason => reason
  | .valueWithoutKey => "map value without a key"
  | .valueBeforeKey => "map value requested before its key"
  | .entriesLeft count => s!"{count} map entries were not consumed"
  | .invalidType found expected => s!"invalid type: {found.message}, expected {expected.message}"
  | .invalidValue found expected => s!"invalid value: {found.message}, expected {expected.message}"
  | .invalidLength length expected => s!"invalid length {length}, expected {expected.message}"
  | .unknownVariant name known => s!"unknown variant `{name}`, {alternatives known}"

end Marshal.Datum
