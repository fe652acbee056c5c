import Marshal.Datum.Fault
import Marshal.Path
import Marshal.Signature.Parser

/-!
  What can go wrong with a message.

  An `Error` is a cause with the place where it arose: an offset into a signature
  or into bytes, or a path into a value. `Error.message` gives the text of each.
  An error inside a part of a value is raised with the path from that part on;
  `Error.within` puts the step to the part in front of it.

  The operations are `kind`, told by the constructor, `path` and `offset` of an error and its
  display, with the constructors `malformed`, `mismatch` and `data`.
-/

namespace Marshal

/-- What a value has at a place where its type does not allow it. -/
inductive Finding where
  /-- The value itself is of the wrong kind. -/
  | value (v : Value)
  /-- The value is an integer that the scalar type cannot hold. -/
  | outOfRange (v : Value) (type : ScalarType)
  | interiorNul
  | oversizedText
  | oversizedArray
deriving DecidableEq

def Finding.message : Finding → String
  | .value v => v.describe
  | .outOfRange v type => s!"{v.describe} out of range for {type.name}"
  | .interiorNul => "string with interior NUL byte"
  | .oversizedText => "string longer than 4 GiB"
  | .oversizedArray => "array with more than u32::MAX elements"

inductive Corruption where
  | missing (count : Nat)
  | trailing (count : Nat)
  | unterminatedText
  | interiorNul
  | oversizedArray (count : Nat) (element : TypeTree) (remaining : Nat)
deriving DecidableEq

def Corruption.message : Corruption → String
  | .missing count => s!"Missing {count} bytes to read data"
  | .trailing count => s!"Found {count} unexpected trailing bytes at the end while reading data"
  | .unterminatedText => "string is not NUL terminated"
  | .interiorNul => "string contains a NUL byte"
  | .oversizedArray count element remaining =>
      s!"array of {count} elements of type '{element.signature}' does not fit into the remaining " ++
        s!"{remaining} bytes"

inductive Part where
  | key
  | entryValue
  | children
deriving DecidableEq, Repr

def Part.name : Part → String
  | .key => "key"
  | .entryValue => "entry_value"
  | .children => "children"

inductive Error where
  | malformedSignature (signature : String) (fault : Signature.Parser.Fault)
  | typeMismatch (path : Path) (expected : TypeTree) (found : Finding)
  | arity (path : Path) (expected found : Nat)
  | notBoolean (offset word : Nat)
  | noSuchPart (signature : String) (part : Part)
  | corrupt (offset : Nat) (corruption : Corruption)
  | utf8 (offset : Nat) (fault : Text.Utf8.Fault)
  | conversion (fault : Datum.Fault)
deriving DecidableEq

namespace Error

def path? : Error → Option Path
  | .typeMismatch path .. | .arity path .. => some path
  | _ => none

def offset? : Error → Option Nat
  | .malformedSignature _ fault => some fault.offset
  | .notBoolean offset _ | .corrupt offset _ | .utf8 offset _ => some offset
  | _ => none

def within (s : Step) : Error → Error
  | .typeMismatch path expected found => .typeMismatch (path.within s) expected found
  | .arity path expected found => .arity (path.within s) expected found
  | e => e

def message : Error → String
  | .malformedSignature signature fault =>
      s!"Malformed signature '{signature}' at offset {fault.offset}: {fault.reason.message}"
  | .typeMismatch path expected found =>
      s!"Type mismatch at {path.text}: expected '{expected.signature}', found {found.message}"
  | .arity path expected found =>
      s!"Wrong number of members at {path.text}: expected {expected}, found {found}"
  | .notBoolean offset word =>
      s!"Value out of range at offset {offset}: {word} is not a valid boolean"
  | .noSuchPart signature part =>
      s!"'{part.name}' is not available for a value with signature '{signature}'"
  | .corrupt offset corruption =>
      s!"A data inconsistency error occured at offset {offset}: {corruption.message}"
  | .utf8 offset fault => s!"Error converting string at offset {offset} to UTF-8: {fault.message}"
  | .conversion fault => fault.message

end Error

/-- Runs a check on a part of a container, one step below it. -/
def inside {α : Type} (s : Step) (result : Except Error α) : Except Error α :=
  result.mapError (Error.within s)

end Marshal
