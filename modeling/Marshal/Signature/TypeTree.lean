import Marshal.Signature.ScalarType

/-!
  The types of messages.

  A `TypeTree` is a scalar type, an array of one element type, a struct of any
  number of field types or a dict entry of a key and a value type. This module
  holds the measures of a tree (`depth`, `dimensions`, `minSize`), its
  written form as a signature and its descriptive form.

  The operations are those of a type node: `scalar_code`, `element`, `fields`, `key`, `value`,
  `dimensions`, `depth`, `min_wire_size`, `signature` (by `write_signature`) and its two
  displays.
-/

namespace Marshal

inductive TypeTree where
  | scalar (type : ScalarType)
  | array (element : TypeTree)
  | struct (fields : List TypeTree)
  | dictEntry (key value : TypeTree)
deriving Repr

namespace TypeTree

/-! ### Equality -/

mutual

protected def decEq : (s t : TypeTree) → Decidable (s = t)
  | .scalar c, .scalar d =>
      if h : c = d then isTrue (h ▸ rfl) else isFalse fun e => h (TypeTree.scalar.inj e)
  | .array a, .array b =>
      match TypeTree.decEq a b with
      | isTrue h => isTrue (h ▸ rfl)
      | isFalse h => isFalse fun e => h (TypeTree.array.inj e)
  | .struct as, .struct bs =>
      match TypeTree.decEqFields as bs with
      | isTrue h => isTrue (h ▸ rfl)
      | isFalse h => isFalse fun e => h (TypeTree.struct.inj e)
  | .dictEntry k v, .dictEntry l w =>
      match TypeTree.decEq k l, TypeTree.decEq v w with
      | isTrue h, isTrue i => isTrue (h ▸ i ▸ rfl)
      | isFalse h, _ => isFalse fun e => h (TypeTree.dictEntry.inj e).1
      | _, isFalse i => isFalse fun e => i (TypeTree.dictEntry.inj e).2
  | .scalar _, .array _ | .scalar _, .struct _ | .scalar _, .dictEntry .. => isFalse nofun
  | .array _, .scalar _ | .array _, .struct _ | .array _, .dictEntry .. => isFalse nofun
  | .struct _, .scalar _ | .struct _, .array _ | .struct _, .dictEntry .. => isFalse nofun
  | .dictEntry .., .scalar _ | .dictEntry .., .array _ | .dictEntry .., .struct _ => isFalse nofun

protected def decEqFields : (ss ts : List TypeTree) → Decidable (ss = ts)
  | [], [] => isTrue rfl
  | [], _ :: _ | _ :: _, [] => isFalse nofun
  | s :: ss, t :: ts =>
      match TypeTree.decEq s t, TypeTree.decEqFields ss ts with
      | isTrue h, isTrue i => isTrue (h ▸ i ▸ rfl)
      | isFalse h, _ => isFalse fun e => h (List.cons.inj e).1
      | _, isFalse i => isFalse fun e => i (List.cons.inj e).2

end

instance : DecidableEq TypeTree := TypeTree.decEq

/-! ### Parts of a type -/

def scalarType? : TypeTree → Option ScalarType
  | .scalar c => some c
  | _ => none

def element? : TypeTree → Option TypeTree
  | .array t => some t
  | _ => none

def fields? : TypeTree → Option (List TypeTree)
  | .struct ts => some ts
  | _ => none

def key? : TypeTree → Option TypeTree
  | .dictEntry k _ => some k
  | _ => none

def value? : TypeTree → Option TypeTree
  | .dictEntry _ v => some v
  | _ => none

def isScalar (t : TypeTree) : Bool := t.scalarType?.isSome

def isArray (t : TypeTree) : Bool := t.element?.isSome

def isStruct (t : TypeTree) : Bool := t.fields?.isSome

def isDictEntry (t : TypeTree) : Bool := t.key?.isSome

/-! ### Measures -/

/-- The number of arrays that open one another at the root. -/
def dimensions : TypeTree → Nat
  | .array t => t.dimensions + 1
  | _ => 0

mutual

/-- The number of containers on the longest way from the root to a leaf. -/
def depth : TypeTree → Nat
  | .scalar _ => 0
  | .array t => t.depth + 1
  | .struct ts => fieldsDepth ts + 1
  | .dictEntry k v => max k.depth v.depth + 1

def fieldsDepth : List TypeTree → Nat
  | [] => 0
  | t :: ts => max t.depth (fieldsDepth ts)

end

theorem fieldsDepth_le_iff (ts : List TypeTree) (n : Nat) :
    fieldsDepth ts ≤ n ↔ ∀ t ∈ ts, t.depth ≤ n := by
  induction ts with
  | nil => simp [fieldsDepth]
  | cons t ts ih => rw [fieldsDepth, Nat.max_le, ih, List.forall_mem_cons]

mutual

/-- The fewest bytes a value of the type takes on the wire. An empty array
    still has its count in four bytes. -/
def minSize : TypeTree → Nat
  | .scalar c => c.minSize
  | .array _ => 4
  | .struct ts => fieldsMinSize ts
  | .dictEntry k v => k.minSize + v.minSize

def fieldsMinSize : List TypeTree → Nat
  | [] => 0
  | t :: ts => t.minSize + fieldsMinSize ts

end

/-! ### Written forms -/

mutual

def letters : TypeTree → List Char
  | .scalar c => [c.letter]
  | .array t => 'a' :: t.letters
  | .struct ts => '(' :: (fieldsLetters ts ++ [')'])
  | .dictEntry k v => '{' :: (k.letters ++ (v.letters ++ ['}']))

def fieldsLetters : List TypeTree → List Char
  | [] => []
  | t :: ts => t.letters ++ fieldsLetters ts

end

def signature (t : TypeTree) : String := String.ofList t.letters

mutual

/-- A description of a type that spells out the names of its scalars, such as
    `int32[]` for an array and `(byte, string)` for a struct. -/
def description : TypeTree → String
  | .scalar c => c.name
  | .array t => t.description ++ "[]"
  | .struct ts => "(" ++ ", ".intercalate (fieldDescriptions ts) ++ ")"
  | .dictEntry k v => "\x7b" ++ k.description ++ ": " ++ v.description ++ "\x7d"

def fieldDescriptions : List TypeTree → List String
  | [] => []
  | t :: ts => t.description :: fieldDescriptions ts

end

end TypeTree

end Marshal
