import Marshal.Error

/-!
  Signatures.

  A `Signature` is a type with its text. It is read from a text by
  `Signature.parse` or made from a type by `Signature.ofTree`. Two signatures are
  the same when their texts are.

  The operations are `parse` and `is_valid` on texts, and `new`, the conversion from a type
  and the comparison of signatures.
-/

namespace Marshal

def TypeTree.parse (text : String) : Except Error TypeTree :=
  (Signature.Parser.read text.toList).mapError (.malformedSignature text)

structure Signature where
  text : String
  root : TypeTree
deriving Repr

namespace Signature

def parse (text : String) : Except Error Signature :=
  (TypeTree.parse text).map (⟨text, ·⟩)

def isValid (text : String) : Bool := (TypeTree.parse text).isOk

def ofTree (root : TypeTree) : Signature := ⟨root.signature, root⟩

instance : BEq Signature := ⟨fun s t => s.text == t.text⟩

/-- The text of a signature in quotes, as listings print it. -/
def listing (s : Signature) : String := "Signature(" ++ Text.quoted s.text ++ ")"

end Signature

end Marshal
