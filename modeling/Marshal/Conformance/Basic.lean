import Marshal.Conformance.Scalar

/-!
  Checking a value against a type.

  `conform` walks through type and value together and returns the value in the
  form that the type prescribes, or the first place where the two differ. A struct
  of two fields counts as a dict entry where one is expected. A container is checked
  before its parts, and the parts are checked in order.

  The operation is `conform` on a type tree: `inside` does what `with_segment` does, and
  `arrayElements`, `structFields` and `entryOrPair` are the checks of its three kinds of
  container.
-/

namespace Marshal

/-- Runs a check on each element of an array, numbering them from `index` on. -/
def eachElement {α : Type} (check : Value → Except Error α) (index : Nat) :
    List Value → Except Error (List α)
  | [] => .ok []
  | v :: vs => do
      let a ← inside (.element index) (check v)
      let as ← eachElement check (index + 1) vs
      return a :: as

/-! ### Containers -/

def arrayElements (type : TypeTree) : Value → Except Error (List Value)
  | .array elements => .ok elements
  | other => mismatch type (.value other)

def structFields (types : List TypeTree) : Value → Except Error (List Value)
  | .struct fields =>
      if fields.length = types.length then .ok fields
      else .error (.arity .root types.length fields.length)
  | other => mismatch (.struct types) (.value other)

def entryHalves (type : TypeTree) : Value → Except Error (Value × Value)
  | .dictEntry key value => .ok (key, value)
  | other => mismatch type (.value other)

/-- The halves of a dict entry, or of a struct of two fields that stands for one. -/
def entryOrPair (type : TypeTree) : Value → Except Error (Value × Value)
  | .struct [key, value] => .ok (key, value)
  | .struct fields => .error (.arity .root 2 fields.length)
  | other => entryHalves type other

/-! ### Whole values -/

mutual

def conform (coercion : Coercion) : TypeTree → Value → Except Error Value
  | .scalar type, v => conformScalar coercion type v
  | .array type, v => do
      let elements ← arrayElements (.array type) v
      let elements ← eachElement (conform coercion type) 0 elements
      return .array elements
  | .struct types, v => do
      let fields ← structFields types v
      let fields ← conformFields coercion 0 types fields
      return .struct fields
  | .dictEntry keyType valueType, v => do
      let (key, value) ← entryOrPair (.dictEntry keyType valueType) v
      let key ← inside .key (conform coercion keyType key)
      let value ← inside .value (conform coercion valueType value)
      return .dictEntry key value

def conformFields (coercion : Coercion) (index : Nat) :
    List TypeTree → List Value → Except Error (List Value)
  | type :: types, v :: vs => do
      let w ← inside (.field index) (conform coercion type v)
      let ws ← conformFields coercion (index + 1) types vs
      return w :: ws
  | [], _ => .ok []
  | _ :: _, [] => .ok []

end

end Marshal
