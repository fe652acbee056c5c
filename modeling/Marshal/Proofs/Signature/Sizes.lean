import Marshal.Proofs.Signature.Reader

/-!
  Types whose values take room.

  A type without an empty struct has a least size of at least one byte
  (`one_le_minSize`), so in a type that was read from a text every array has elements of
  at least one byte (`elementsSized_of_parse`).
-/

namespace Marshal.TypeTree

mutual

/-- Whether the elements of every array inside a type take at least one byte. -/
def elementsSized : TypeTree → Bool
  | .scalar _ => true
  | .array t => decide (1 ≤ t.minSize) && t.elementsSized
  | .struct ts => fieldsElementsSized ts
  | .dictEntry k v => k.elementsSized && v.elementsSized

def fieldsElementsSized : List TypeTree → Bool
  | [] => true
  | t :: ts => t.elementsSized && fieldsElementsSized ts

end

theorem one_le_minSize_scalar (c : ScalarType) : 1 ≤ c.minSize := by
  cases c with
  | int c => cases c <;> decide
  | _ => decide

theorem one_le_minSize (t : TypeTree) (h : t.noEmptyStruct) : 1 ≤ t.minSize :=
  match t with
  | .scalar c => one_le_minSize_scalar c
  | .array _ => by rw [minSize]; decide
  | .struct [] => by cases h
  | .struct (t :: ts) => by
    simp only [noEmptyStruct, fieldsNoEmptyStruct, Bool.and_eq_true] at h
    have hfirst := one_le_minSize t h.2.1
    rw [minSize, fieldsMinSize]
    exact Nat.le_add_right_of_le hfirst
  | .dictEntry k v => by
    simp only [noEmptyStruct, Bool.and_eq_true] at h
    have hkey := one_le_minSize k h.1
    rw [minSize]
    exact Nat.le_add_right_of_le hkey

mutual

theorem elementsSized_of_noEmptyStruct (t : TypeTree) (h : t.noEmptyStruct) :
    t.elementsSized :=
  match t with
  | .scalar _ => rfl
  | .array t => by
    have hsize := one_le_minSize t h
    have helements := elementsSized_of_noEmptyStruct t h
    simp only [elementsSized, hsize, helements, decide_true, Bool.and_self]
  | .struct ts => by
    simp only [noEmptyStruct, Bool.and_eq_true] at h
    exact fieldsElementsSized_of_noEmptyStruct ts h.2
  | .dictEntry k v => by
    simp only [noEmptyStruct, Bool.and_eq_true] at h
    simp only [elementsSized, elementsSized_of_noEmptyStruct k h.1,
      elementsSized_of_noEmptyStruct v h.2, Bool.and_self]

theorem fieldsElementsSized_of_noEmptyStruct (ts : List TypeTree)
    (h : fieldsNoEmptyStruct ts) : fieldsElementsSized ts :=
  match ts with
  | [] => rfl
  | t :: ts => by
    simp only [fieldsNoEmptyStruct, Bool.and_eq_true] at h
    simp only [fieldsElementsSized, elementsSized_of_noEmptyStruct t h.1,
      fieldsElementsSized_of_noEmptyStruct ts h.2, Bool.and_self]

end

/-- A text cannot spell a type whose arrays have elements without bytes. -/
theorem elementsSized_of_parse {text : String} {t : TypeTree} (h : TypeTree.parse text = .ok t) :
    t.elementsSized :=
  elementsSized_of_noEmptyStruct t (Signature.Parser.fits_of_parse h).1

end Marshal.TypeTree
