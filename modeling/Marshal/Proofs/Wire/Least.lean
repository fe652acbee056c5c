import Marshal.Proofs.Wire.Canonical

/-!
  The least size of a type is the size of a value.

  Every type has a value without anything in it that could be left out: zero, empty text, no
  elements, and such values in every field and half (`TypeTree.least`). It is written in
  exactly as many bytes as the least size of the type says (`write_least`). No value of the type
  takes fewer bytes where it is written, and none where it is read, because reading passes the
  bytes that writing gives. So the check of a count before an array is read is neither too strict
  nor weaker than it could be (`minSize_exact`).
-/

namespace Marshal

/-! ### Values of the least size -/

/-- The scalar of a type that takes the fewest bytes: false, zero or empty text. -/
def ScalarType.least : ScalarType → Value
  | .bool => .bool false
  | .int c => .ofWord c 0
  | .double => .double ⟨0⟩
  | .text => .text ""

namespace TypeTree

mutual

/-- The value of a type that takes the fewest bytes. Its arrays are empty. -/
def least : TypeTree → Value
  | .scalar c => c.least
  | .array _ => .array []
  | .struct ts => .struct (leastFields ts)
  | .dictEntry k v => .dictEntry k.least v.least

def leastFields : List TypeTree → List Value
  | [] => []
  | t :: ts => t.least :: leastFields ts

end

theorem length_leastFields (ts : List TypeTree) : (leastFields ts).length = ts.length := by
  induction ts with
  | nil => rfl
  | cons t ts ih => rw [leastFields, List.length_cons, List.length_cons, ih]

end TypeTree

namespace Wire

theorem writeScalar_least (order : ByteOrder) (c : ScalarType) :
    ∃ bytes, writeScalar order c c.least = .ok bytes ∧ bytes.length = c.minSize := by
  cases c with
  | bool => exact ⟨_, rfl, ByteOrder.length_toBytes ..⟩
  | int c => exact ⟨_, if_pos rfl, ByteOrder.length_toBytes ..⟩
  | double => exact ⟨_, rfl, ByteOrder.length_toBytes ..⟩
  | text =>
    refine ⟨_, writeScalar_text_ok_iff.2 ⟨"", rfl, rfl, Nat.zero_le _, rfl⟩, ?_⟩
    rw [textBytes, List.length_append, ByteOrder.length_toBytes]
    rfl

mutual

/-- The value of the least size is written in as many bytes as the least size says. -/
theorem write_least (order : ByteOrder) (t : TypeTree) :
    ∃ bytes, write order t t.least = .ok bytes ∧ bytes.length = t.minSize :=
  match t with
  | .scalar c => writeScalar_least order c
  | .array t => by
    refine ⟨_, write_array_ok_iff.2 ⟨[], [], rfl, Nat.zero_le _, .nil, rfl⟩, ?_⟩
    rw [List.flatten_nil, List.append_nil, ByteOrder.length_toBytes, TypeTree.minSize]
  | .struct ts => by
    obtain ⟨bytes, hbytes, hlength⟩ := writeFields_leastFields order ts 0
    have hcount := TypeTree.length_leastFields ts
    exact ⟨bytes, write_struct_ok_iff.2 ⟨_, rfl, hcount, hbytes⟩, hlength⟩
  | .dictEntry k v => by
    obtain ⟨front, hfront, hfrontLength⟩ := write_least order k
    obtain ⟨back, hback, hbackLength⟩ := write_least order v
    refine ⟨_, write_dictEntry_ok_iff.2 ⟨_, _, front, back, rfl, hfront, hback, rfl⟩, ?_⟩
    rw [List.length_append, hfrontLength, hbackLength, TypeTree.minSize]

theorem writeFields_leastFields (order : ByteOrder) (ts : List TypeTree) (index : Nat) :
    ∃ bytes, writeFields order index ts (TypeTree.leastFields ts) = .ok bytes ∧
      bytes.length = TypeTree.fieldsMinSize ts :=
  match ts with
  | [] => ⟨[], rfl, rfl⟩
  | t :: ts => by
    obtain ⟨front, hfront, hfrontLength⟩ := write_least order t
    obtain ⟨back, hback, hbackLength⟩ := writeFields_leastFields order ts (index + 1)
    refine ⟨_, writeFields_cons_ok_iff.2 ⟨front, back, hfront, hback, rfl⟩, ?_⟩
    rw [List.length_append, hfrontLength, hbackLength, TypeTree.fieldsMinSize]

end

/-! ### The bound is exact -/

theorem minSize_le_of_read {order : ByteOrder} (t : TypeTree) {input rest : Input} {v : Value}
    (h : read order t input = .ok (v, rest)) :
    ∃ passed, input.Spans passed rest ∧ t.minSize ≤ passed.length := by
  obtain ⟨passed, hwrite, hspans⟩ := write_of_read t h
  exact ⟨passed, hspans, minSize_le_of_write t hwrite⟩

/-- The least size of a type is the least number of bytes of its values: none is written in fewer
    bytes, none is read from fewer, and one is written in exactly as many. -/
theorem minSize_exact (order : ByteOrder) (t : TypeTree) :
    (∀ v bytes, write order t v = .ok bytes → t.minSize ≤ bytes.length) ∧
    (∀ input v rest, read order t input = .ok (v, rest) →
      ∃ passed, input.Spans passed rest ∧ t.minSize ≤ passed.length) ∧
    ∃ v bytes, write order t v = .ok bytes ∧ bytes.length = t.minSize := by
  refine ⟨fun _ _ => minSize_le_of_write t, fun _ _ _ => minSize_le_of_read t, ?_⟩
  obtain ⟨bytes, hwrite, hlength⟩ := write_least order t
  exact ⟨t.least, bytes, hwrite, hlength⟩

/-- A dict entry of text and an array takes nine bytes, and ten with a letter in the text. -/
theorem minSize_exact_entry :
    (TypeTree.dictEntry (.scalar .text) (.array (.scalar .double))).minSize = 9 ∧
    write .little (.dictEntry (.scalar .text) (.array (.scalar .double)))
        (.dictEntry (.text "a") (.array [])) = .ok [1, 0, 0, 0, 97, 0, 0, 0, 0, 0] ∧
    9 ≤ [1, 0, 0, 0, 97, 0, 0, 0, 0, 0].length ∧
    (∃ passed, Input.Spans ⟨3, [1, 0, 0, 0, 97, 0, 0, 0, 0, 0, 255]⟩ passed ⟨13, [255]⟩ ∧
      9 ≤ passed.length) ∧
    ∃ v bytes, write .little (.dictEntry (.scalar .text) (.array (.scalar .double))) v =
      .ok bytes ∧ bytes.length = 9 := by
  have hwrite : write .little (.dictEntry (.scalar .text) (.array (.scalar .double)))
      (.dictEntry (.text "a") (.array [])) = .ok [1, 0, 0, 0, 97, 0, 0, 0, 0, 0] := rfl
  have hread : read .little (.dictEntry (.scalar .text) (.array (.scalar .double)))
      ⟨3, [1, 0, 0, 0, 97, 0, 0, 0, 0, 0, 255]⟩ =
        .ok (.dictEntry (.text "a") (.array []), ⟨13, [255]⟩) := rfl
  obtain ⟨hwritten, hpassed, hleast⟩ :=
    minSize_exact .little (.dictEntry (.scalar .text) (.array (.scalar .double)))
  exact ⟨rfl, hwrite, hwritten _ _ hwrite, hpassed _ _ _ hread, hleast⟩

end Wire

end Marshal
