import Marshal.Settings
import Marshal.Error

/-!
  When a scalar fits a scalar type.

  `checkScalar` asks for exactly the type. `conformScalar` converts an integer first
  where the coercion is weak. Text must not hold the character that ends it on the
  wire.

  The operations are `check` and `conform` on a scalar code, with `integer` for what may be
  converted.
-/

namespace Marshal

def mismatch {α : Type} (expected : TypeTree) (found : Finding) : Except Error α :=
  .error (.typeMismatch .root expected found)

def hasNul (s : String) : Bool := s.toList.any (· == '\x00')

/-- Leaves a scalar of exactly the type as it is. -/
def checkScalar (type : ScalarType) (v : Value) : Except Error Value :=
  if v.scalarType? = some type then
    match v with
    | .text s => if hasNul s then mismatch (.scalar type) .interiorNul else .ok v
    | _ => .ok v
  else mismatch (.scalar type) (.value v)

/-- The value of a scalar type that is equal to an integer, or nearest to it for a
    double. -/
def convertInteger (type : ScalarType) (n : Integer) : Except Error Value :=
  match type with
  | .int c =>
      match Integer.ofInt? c n.val with
      | some m => .ok (.int m)
      | none => mismatch (.scalar type) (.outOfRange (.int n) type)
  | .double => .ok (.double (.ofInt n.val))
  | .bool | .text => mismatch (.scalar type) (.value (.int n))

def conformScalar (coercion : Coercion) (type : ScalarType) (v : Value) : Except Error Value :=
  if coercion = .strict ∨ v.scalarType? = some type then checkScalar type v
  else
    match v with
    | .int n => convertInteger type n
    | _ => mismatch (.scalar type) (.value v)

end Marshal
