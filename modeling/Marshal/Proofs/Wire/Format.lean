import Marshal.Proofs.Conformance.Container
import Marshal.Proofs.Wire.Scalar

/-!
  What is written for a container.

  A value can be written exactly when it has the shape of the type at every node; the
  bytes of a container are then those of its parts behind one another, with the count in
  front where the container is an array. The number of bytes is a measure of the value
  alone (`length_of_write`) and at least the least size of the type
  (`minSize_le_of_write`).
-/

namespace Marshal

namespace Wire

section Write

variable {order : ByteOrder} {v : Value} {bytes : List UInt8}

theorem write_array_ok_iff {type : TypeTree} :
    write order (.array type) v = .ok bytes ↔
      ∃ elements parts, v = .array elements ∧ elements.length ≤ maxCount ∧
        List.Forall₂ (fun e part => write order type e = .ok part) elements parts ∧
        bytes = order.toBytes 4 elements.length ++ parts.flatten := by
  simp only [write, mismatch, bind_ok_iff, arrayElements_ok_iff, ite_error_ok_iff,
    eachElement_ok_iff, pure_ok_iff, exists_and_left]

theorem write_struct_ok_iff {types : List TypeTree} :
    write order (.struct types) v = .ok bytes ↔
      ∃ fields, v = .struct fields ∧ fields.length = types.length ∧
        writeFields order 0 types fields = .ok bytes := by
  simp only [write, bind_ok_iff, structFields_ok_iff, and_assoc]

theorem write_dictEntry_ok_iff {keyType valueType : TypeTree} :
    write order (.dictEntry keyType valueType) v = .ok bytes ↔
      ∃ key value front back, v = .dictEntry key value ∧ write order keyType key = .ok front ∧
        write order valueType value = .ok back ∧ bytes = front ++ back := by
  simp only [write, bind_ok_iff, entryHalves_ok_iff, inside_ok_iff, pure_ok_iff, Prod.exists,
    exists_and_left]

theorem writeFields_cons_ok_iff {index : Nat} {type : TypeTree} {types : List TypeTree}
    {vs : List Value} :
    writeFields order index (type :: types) (v :: vs) = .ok bytes ↔
      ∃ front back, write order type v = .ok front ∧
        writeFields order (index + 1) types vs = .ok back ∧ bytes = front ++ back := by
  simp only [writeFields, bind_ok_iff, inside_ok_iff, pure_ok_iff, exists_and_left]

end Write

end Wire

/-! ### The number of bytes -/

namespace Value

mutual

def wireSize : Value → Nat
  | .bool _ => 4
  | .int n => n.type.width
  | .double _ => 8
  | .text s => 4 + (Text.Utf8.encode s.toList).length + 1
  | .array vs => 4 + wireSizeList vs
  | .struct vs => wireSizeList vs
  | .dictEntry k v => k.wireSize + v.wireSize

def wireSizeList : List Value → Nat
  | [] => 0
  | v :: vs => v.wireSize + wireSizeList vs

end

end Value

namespace Wire

theorem length_of_writeScalar {order : ByteOrder} {type : ScalarType} {v : Value}
    {bytes : List UInt8} (h : writeScalar order type v = .ok bytes) :
    bytes.length = v.wireSize ∧ type.minSize ≤ bytes.length := by
  cases type with
  | text =>
    obtain ⟨s, rfl, -, -, rfl⟩ := writeScalar_text_ok_iff.1 h
    simp [textBytes, Value.wireSize, ScalarType.minSize, ScalarType.fixedSize?]
    omega
  | int c =>
    cases v with
    | int n =>
      rw [writeScalar] at h
      split at h
      · next htype =>
        cases h
        simp [Value.wireSize, ScalarType.minSize, ScalarType.fixedSize?, htype]
      · cases h
    | _ => cases h
  | bool =>
    cases v <;> cases h
    exact ⟨ByteOrder.length_toBytes .., Nat.le_of_eq (ByteOrder.length_toBytes ..).symm⟩
  | double =>
    cases v <;> cases h
    exact ⟨ByteOrder.length_toBytes .., Nat.le_of_eq (ByteOrder.length_toBytes ..).symm⟩

theorem length_of_elements {write : Value → Except Error (List UInt8)} {vs : List Value}
    {parts : List (List UInt8)}
    (hlength : ∀ v bytes, write v = .ok bytes → bytes.length = v.wireSize)
    (h : List.Forall₂ (fun v part => write v = .ok part) vs parts) :
    parts.flatten.length = Value.wireSizeList vs := by
  induction h with
  | nil => rfl
  | cons hpart _ ih => simp [Value.wireSizeList, hlength _ _ hpart, ih]

theorem minSize_mul_le_of_elements {write : Value → Except Error (List UInt8)} {size : Nat}
    {vs : List Value} {parts : List (List UInt8)}
    (hsize : ∀ v bytes, write v = .ok bytes → size ≤ bytes.length)
    (h : List.Forall₂ (fun v part => write v = .ok part) vs parts) :
    vs.length * size ≤ parts.flatten.length := by
  induction h with
  | nil => simp
  | cons hpart _ ih =>
    have := hsize _ _ hpart
    rw [List.length_cons, Nat.add_one_mul, List.flatten_cons, List.length_append]
    omega

mutual

/-- The length of a message depends neither on the byte order nor on how the value is typed. -/
theorem length_of_write {order : ByteOrder} (t : TypeTree) {v : Value} {bytes : List UInt8}
    (h : write order t v = .ok bytes) : bytes.length = v.wireSize :=
  match t with
  | .scalar c => (length_of_writeScalar h).1
  | .array t => by
    obtain ⟨elements, parts, rfl, -, hparts, rfl⟩ := write_array_ok_iff.1 h
    have hflatten := length_of_elements (fun _ _ hw => length_of_write t hw) hparts
    simp [Value.wireSize, hflatten]
  | .struct ts => by
    obtain ⟨fields, rfl, hlength, hfields⟩ := write_struct_ok_iff.1 h
    exact length_of_writeFields ts hlength hfields
  | .dictEntry k w => by
    obtain ⟨key, value, front, back, rfl, hfront, hback, rfl⟩ := write_dictEntry_ok_iff.1 h
    simp [Value.wireSize, length_of_write k hfront, length_of_write w hback]

theorem length_of_writeFields {order : ByteOrder} (ts : List TypeTree) {index : Nat}
    {vs : List Value} {bytes : List UInt8} (hlength : vs.length = ts.length)
    (h : writeFields order index ts vs = .ok bytes) :
    bytes.length = Value.wireSizeList vs :=
  match ts, vs with
  | [], [] => by cases h; rfl
  | t :: ts, v :: vs => by
    obtain ⟨front, back, hfront, hback, rfl⟩ := writeFields_cons_ok_iff.1 h
    have hrest := length_of_writeFields ts (Nat.succ.inj hlength) hback
    simp [Value.wireSizeList, length_of_write t hfront, hrest]

end

mutual

theorem minSize_le_of_write {order : ByteOrder} (t : TypeTree) {v : Value}
    {bytes : List UInt8} (h : write order t v = .ok bytes) : t.minSize ≤ bytes.length :=
  match t with
  | .scalar c => (length_of_writeScalar h).2
  | .array t => by
    obtain ⟨elements, parts, -, -, -, rfl⟩ := write_array_ok_iff.1 h
    simp [TypeTree.minSize]
  | .struct ts => by
    obtain ⟨fields, rfl, hlength, hfields⟩ := write_struct_ok_iff.1 h
    exact fieldsMinSize_le_of_write ts hlength hfields
  | .dictEntry k w => by
    obtain ⟨key, value, front, back, -, hfront, hback, rfl⟩ := write_dictEntry_ok_iff.1 h
    have hkey := minSize_le_of_write k hfront
    have hvalue := minSize_le_of_write w hback
    rw [TypeTree.minSize, List.length_append]
    exact Nat.add_le_add hkey hvalue

theorem fieldsMinSize_le_of_write {order : ByteOrder} (ts : List TypeTree) {index : Nat}
    {vs : List Value} {bytes : List UInt8} (hlength : vs.length = ts.length)
    (h : writeFields order index ts vs = .ok bytes) :
    TypeTree.fieldsMinSize ts ≤ bytes.length :=
  match ts, vs with
  | [], [] => Nat.zero_le _
  | t :: ts, v :: vs => by
    obtain ⟨front, back, hfront, hback, rfl⟩ := writeFields_cons_ok_iff.1 h
    have hfirst := minSize_le_of_write t hfront
    have hrest := fieldsMinSize_le_of_write ts (Nat.succ.inj hlength) hback
    rw [TypeTree.fieldsMinSize, List.length_append]
    exact Nat.add_le_add hfirst hrest

end

end Wire

end Marshal
