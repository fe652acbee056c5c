import Marshal.Proofs.Wire.RoundTrip
import Marshal.Proofs.Wire.Writable

/-!
  Counts of arrays and the bytes behind them.

  Reading compares the count of an array with the bytes behind it before it reads an element.
  Where the elements of every array take room (`TypeTree.elementsSized`), this check refuses only
  what could not be read anyway: `readUnguarded` goes without it and returns the same values
  (`decode_ok_iff_unguarded`). And each element of an array, however deep the array lies, has a
  byte of its own, so a value has no more elements than its message has bytes
  (`elementCount_le_of_decode`).
-/

namespace Marshal

namespace Wire

/-! ### Reading without the check of the count -/

mutual

/-- Reads one value of a type and takes the count of an array as it is. -/
def readUnguarded (order : ByteOrder) : TypeTree → Input → Except Error (Value × Input)
  | .scalar type, input => readScalar order type input
  | .array type, input => do
      let (count, rest) ← input.word order 4
      let (elements, rest) ← readMany (readUnguarded order type) count rest
      return (.array elements, rest)
  | .struct types, input => do
      let (fields, rest) ← readFieldsUnguarded order types input
      return (.struct fields, rest)
  | .dictEntry keyType valueType, input => do
      let (key, input) ← readUnguarded order keyType input
      let (value, input) ← readUnguarded order valueType input
      return (.dictEntry key value, input)

def readFieldsUnguarded (order : ByteOrder) :
    List TypeTree → Input → Except Error (List Value × Input)
  | [], input => .ok ([], input)
  | type :: types, input => do
      let (v, input) ← readUnguarded order type input
      let (vs, input) ← readFieldsUnguarded order types input
      return (v :: vs, input)

end

def decodeUnguarded (order : ByteOrder) (type : TypeTree) (bytes : List UInt8) :
    Except Error Value :=
  whole (readUnguarded order type) bytes

section Unguarded

variable {order : ByteOrder} {input rest : Input} {v : Value}

theorem readUnguarded_array_ok_iff {type : TypeTree} :
    readUnguarded order (.array type) input = .ok (v, rest) ↔
      ∃ count start elements, input.word order 4 = .ok (count, start) ∧
        readMany (readUnguarded order type) count start = .ok (elements, rest) ∧
        v = .array elements := by
  simp only [readUnguarded, bind_ok_iff (x := input.word order 4), Prod.exists, wrap_ok_iff,
    exists_and_left]

theorem readUnguarded_struct_ok_iff {types : List TypeTree} :
    readUnguarded order (.struct types) input = .ok (v, rest) ↔
      ∃ fields, readFieldsUnguarded order types input = .ok (fields, rest) ∧
        v = .struct fields :=
  wrap_ok_iff

theorem readUnguarded_dictEntry_ok_iff {keyType valueType : TypeTree} :
    readUnguarded order (.dictEntry keyType valueType) input = .ok (v, rest) ↔
      ∃ key middle value, readUnguarded order keyType input = .ok (key, middle) ∧
        readUnguarded order valueType middle = .ok (value, rest) ∧ v = .dictEntry key value := by
  simp only [readUnguarded, bind_ok_iff (x := readUnguarded order keyType input), Prod.exists,
    wrap_ok_iff, exists_and_left]

theorem readFieldsUnguarded_cons_ok_iff {type : TypeTree} {types : List TypeTree}
    {vs : List Value} :
    readFieldsUnguarded order (type :: types) input = .ok (vs, rest) ↔
      ∃ w middle ws, readUnguarded order type input = .ok (w, middle) ∧
        readFieldsUnguarded order types middle = .ok (ws, rest) ∧ vs = w :: ws := by
  simp only [readFieldsUnguarded, bind_ok_iff (x := readUnguarded order type input), Prod.exists,
    wrap_ok_iff, exists_and_left]

end Unguarded

/-- Two readers that return the same single values return the same rows of values. -/
theorem readMany_ok_congr {readOne readOne' : Input → Except Error (Value × Input)}
    (hone : ∀ input v rest, readOne input = .ok (v, rest) ↔ readOne' input = .ok (v, rest))
    {count : Nat} {input rest : Input} {vs : List Value} :
    readMany readOne count input = .ok (vs, rest) ↔
      readMany readOne' count input = .ok (vs, rest) := by
  induction count generalizing input vs with
  | zero => rfl
  | succ count ih => simp only [readMany_succ_ok_iff, hone, ih]

/-- Elements that were read fit into the bytes behind their count, each with the least size of
    its type. -/
theorem guard_of_readMany {order : ByteOrder} {t : TypeTree} (ht : 1 ≤ t.minSize)
    {count : Nat} {input start rest : Input} {elements : List Value}
    (hword : input.word order 4 = .ok (count, start))
    (helements : readMany (read order t) count start = .ok (elements, rest)) :
    count ≤ start.remaining / elementRoom t := by
  obtain ⟨-, hcount⟩ := word_ok_iff.1 hword
  have hoffset : start.offset = input.offset + 4 := by
    rw [hcount.2, ByteOrder.length_toBytes]
  obtain ⟨rfl, parts, hparts, hspans⟩ :=
    elements_of_readMany (fun _ _ _ hread => write_of_read t hread) helements
  apply (guard_iff hparts hspans hoffset).2
  intro hstarved
  rw [hstarved.1] at ht
  exact absurd ht (by decide)

mutual

/-- Where the elements of every array take room, the check of the count changes no value that is
    read. -/
theorem readUnguarded_ok_iff {order : ByteOrder} (t : TypeTree) (ht : t.elementsSized)
    {input rest : Input} {v : Value} :
    readUnguarded order t input = .ok (v, rest) ↔ read order t input = .ok (v, rest) :=
  match t with
  | .scalar _ => Iff.rfl
  | .array t => by
    simp only [TypeTree.elementsSized, Bool.and_eq_true, decide_eq_true_eq] at ht
    have hone : ∀ input v rest,
        readUnguarded order t input = .ok (v, rest) ↔ read order t input = .ok (v, rest) :=
      fun _ _ _ => readUnguarded_ok_iff t ht.2
    rw [readUnguarded_array_ok_iff, read_array_ok_iff]
    constructor
    · intro h
      obtain ⟨count, start, elements, hword, helements, rfl⟩ := h
      rw [readMany_ok_congr hone] at helements
      -- that all elements could be read shows that the check would have let them pass
      have hguard := guard_of_readMany ht.1 hword helements
      exact ⟨count, start, elements, hword, hguard, helements, rfl⟩
    · intro h
      obtain ⟨count, start, elements, hword, -, helements, rfl⟩ := h
      rw [← readMany_ok_congr hone] at helements
      exact ⟨count, start, elements, hword, helements, rfl⟩
  | .struct ts => by
    rw [readUnguarded_struct_ok_iff, read_struct_ok_iff]
    simp only [readFieldsUnguarded_ok_iff ts ht]
  | .dictEntry k w => by
    simp only [TypeTree.elementsSized, Bool.and_eq_true] at ht
    rw [readUnguarded_dictEntry_ok_iff, read_dictEntry_ok_iff]
    simp only [readUnguarded_ok_iff k ht.1, readUnguarded_ok_iff w ht.2]

theorem readFieldsUnguarded_ok_iff {order : ByteOrder} (ts : List TypeTree)
    (hts : TypeTree.fieldsElementsSized ts) {input rest : Input} {vs : List Value} :
    readFieldsUnguarded order ts input = .ok (vs, rest) ↔
      readFields order ts input = .ok (vs, rest) :=
  match ts with
  | [] => Iff.rfl
  | t :: ts => by
    simp only [TypeTree.fieldsElementsSized, Bool.and_eq_true] at hts
    rw [readFieldsUnguarded_cons_ok_iff, readFields_cons_ok_iff]
    simp only [readUnguarded_ok_iff t hts.1, readFieldsUnguarded_ok_iff ts hts.2]

end

theorem decode_ok_iff_of_sized {order : ByteOrder} {t : TypeTree} (ht : t.elementsSized)
    {bytes : List UInt8} {v : Value} :
    decode order t bytes = .ok v ↔ decodeUnguarded order t bytes = .ok v := by
  rw [decode, decodeUnguarded, whole_ok_iff, whole_ok_iff]
  simp only [readUnguarded_ok_iff t ht]

/-- Where the elements of every array take room, as in every type that was read from a text, the
    check of the count refuses only messages that could not be read without it either, and it
    changes no value. -/
theorem decode_ok_iff_unguarded (order : ByteOrder) (t : TypeTree) (bytes : List UInt8)
    (v : Value) :
    (t.elementsSized →
      (decode order t bytes = .ok v ↔ decodeUnguarded order t bytes = .ok v)) ∧
    ∀ text, TypeTree.parse text = .ok t →
      (decode order t bytes = .ok v ↔ decodeUnguarded order t bytes = .ok v) :=
  ⟨fun ht => decode_ok_iff_of_sized ht,
    fun _ hparse => decode_ok_iff_of_sized (TypeTree.elementsSized_of_parse hparse)⟩

/-- Seven elements of at least five bytes are announced, and six bytes are left, so there is no
    value; with the right count the six bytes are one element. Elements without bytes can be read
    in any number, and only the check refuses them. -/
theorem decode_ok_iff_unguarded_texts :
    TypeTree.parse "as" = .ok (.array (.scalar .text)) ∧
    (∀ v, decodeUnguarded .little (.array (.scalar .text))
      [7, 0, 0, 0, 1, 0, 0, 0, 97, 0] ≠ .ok v) ∧
    decodeUnguarded .little (.array (.scalar .text)) [1, 0, 0, 0, 1, 0, 0, 0, 97, 0] =
      .ok (.array [.text "a"]) ∧
    decodeUnguarded .little (.array (.struct [])) [2, 0, 0, 0] =
      .ok (.array [.struct [], .struct []]) ∧
    decode .little (.array (.struct [])) [2, 0, 0, 0] =
      .error (.corrupt 0 (.oversizedArray 2 (.struct []) 0)) := by
  have hparse : TypeTree.parse "as" = .ok (.array (.scalar .text)) := by rfl
  refine ⟨hparse, ?_, ?_, rfl, rfl⟩
  · intro v h
    have hdecode := ((decode_ok_iff_unguarded _ _ _ _).2 "as" hparse).2 h
    cases hdecode
  · exact ((decode_ok_iff_unguarded _ _ _ _).1 (by decide)).1 rfl

end Wire

/-! ### The number of elements -/

namespace Value

mutual

def elementCount : Value → Nat
  | .bool _ | .int _ | .double _ | .text _ => 0
  | .array vs => vs.length + elementCountList vs
  | .struct vs => elementCountList vs
  | .dictEntry k v => k.elementCount + v.elementCount

def elementCountList : List Value → Nat
  | [] => 0
  | v :: vs => v.elementCount + elementCountList vs

end

end Value

namespace Wire

theorem elementCount_of_writeScalar {order : ByteOrder} {c : ScalarType} {v : Value}
    {bytes : List UInt8} (h : writeScalar order c v = .ok bytes) : v.elementCount = 0 := by
  have hform := (writeScalar_isOk_iff.1 ⟨bytes, h⟩).1
  cases v with
  | array | struct | dictEntry => simp [ScalarType.canonical, Value.scalarType?] at hform
  | _ => rfl

theorem elementCountList_add_le {write : Value → Except Error (List UInt8)} {size : Nat}
    (hone : ∀ v bytes, write v = .ok bytes → v.elementCount + size ≤ bytes.length)
    {vs : List Value} {parts : List (List UInt8)}
    (h : List.Forall₂ (fun v part => write v = .ok part) vs parts) :
    Value.elementCountList vs + vs.length * size ≤ parts.flatten.length := by
  induction h with
  | nil => simp [Value.elementCountList]
  | cons hpart _ ih =>
    have := hone _ _ hpart
    rw [Value.elementCountList, List.length_cons, Nat.add_one_mul, List.flatten_cons,
      List.length_append]
    omega

mutual

/-- A value takes the least number of bytes of its type and one more byte for each element of an
    array in it. An element pays with its own least size, which is not spent on the arrays inside
    of it. -/
theorem elementCount_add_minSize_le {order : ByteOrder} (t : TypeTree) (ht : t.elementsSized)
    {v : Value} {bytes : List UInt8} (h : write order t v = .ok bytes) :
    v.elementCount + t.minSize ≤ bytes.length :=
  match t with
  | .scalar c => by
    rw [elementCount_of_writeScalar h, Nat.zero_add]
    exact (length_of_writeScalar h).2
  | .array t => by
    simp only [TypeTree.elementsSized, Bool.and_eq_true, decide_eq_true_eq] at ht
    obtain ⟨elements, parts, rfl, -, hparts, rfl⟩ := write_array_ok_iff.1 h
    have hsum := elementCountList_add_le
      (fun _ _ hw => elementCount_add_minSize_le t ht.2 hw) hparts
    have hcount : elements.length ≤ elements.length * t.minSize := Nat.le_mul_of_pos_right _ ht.1
    rw [Value.elementCount, TypeTree.minSize, List.length_append, ByteOrder.length_toBytes]
    omega
  | .struct ts => by
    obtain ⟨fields, rfl, hlength, hfields⟩ := write_struct_ok_iff.1 h
    exact elementCountList_add_fieldsMinSize_le ts ht hlength hfields
  | .dictEntry k w => by
    simp only [TypeTree.elementsSized, Bool.and_eq_true] at ht
    obtain ⟨key, value, front, back, rfl, hfront, hback, rfl⟩ := write_dictEntry_ok_iff.1 h
    have hkey := elementCount_add_minSize_le k ht.1 hfront
    have hvalue := elementCount_add_minSize_le w ht.2 hback
    rw [Value.elementCount, TypeTree.minSize, List.length_append]
    omega

theorem elementCountList_add_fieldsMinSize_le {order : ByteOrder} (ts : List TypeTree)
    (hts : TypeTree.fieldsElementsSized ts) {index : Nat} {vs : List Value}
    {bytes : List UInt8} (hlength : vs.length = ts.length)
    (h : writeFields order index ts vs = .ok bytes) :
    Value.elementCountList vs + TypeTree.fieldsMinSize ts ≤ bytes.length :=
  match ts, vs with
  | [], [] => Nat.zero_le _
  | t :: ts, v :: vs => by
    simp only [TypeTree.fieldsElementsSized, Bool.and_eq_true] at hts
    obtain ⟨front, back, hfront, hback, rfl⟩ := writeFields_cons_ok_iff.1 h
    have hfirst := elementCount_add_minSize_le t hts.1 hfront
    have hrest := elementCountList_add_fieldsMinSize_le ts hts.2 (Nat.succ.inj hlength) hback
    rw [Value.elementCountList, TypeTree.fieldsMinSize, List.length_append]
    omega

end

theorem elementCount_le_of_sized {order : ByteOrder} {t : TypeTree} (ht : t.elementsSized)
    {bytes : List UInt8} {v : Value} (h : decode order t bytes = .ok v) :
    v.elementCount ≤ bytes.length :=
  Nat.le_of_add_right_le (elementCount_add_minSize_le t ht (write_of_decode h))

/-- Where the elements of every array take room, as in every type that was read from a text, all
    arrays of a value together have no more elements than its message has bytes. -/
theorem elementCount_le_of_decode (order : ByteOrder) (t : TypeTree) (bytes : List UInt8)
    (v : Value) (h : decode order t bytes = .ok v) :
    (t.elementsSized → v.elementCount ≤ bytes.length) ∧
    ∀ text, TypeTree.parse text = .ok t → v.elementCount ≤ bytes.length :=
  ⟨fun ht => elementCount_le_of_sized ht h,
    fun _ hparse => elementCount_le_of_sized (TypeTree.elementsSized_of_parse hparse) h⟩

/-- Two arrays with three bytes between them, inside of a third. Arrays whose elements have no
    bytes each count the bytes behind them, so here sixteen bytes hold twenty-four elements. -/
theorem elementCount_le_of_decode_nested :
    TypeTree.parse "aay" = .ok (.array (.array (.scalar (.int .byte)))) ∧
    decode .little (.array (.array (.scalar (.int .byte))))
        [2, 0, 0, 0, 2, 0, 0, 0, 7, 8, 1, 0, 0, 0, 9] =
      .ok (.array [.array [.ofWord .byte 7, .ofWord .byte 8], .array [.ofWord .byte 9]]) ∧
    (Value.array [.array [.ofWord .byte 7, .ofWord .byte 8],
      .array [.ofWord .byte 9]]).elementCount = 5 ∧
    5 ≤ 15 ∧
    (decode .little (.struct (List.replicate 4 (.array (.struct []))))
      [12, 0, 0, 0, 8, 0, 0, 0, 4, 0, 0, 0, 0, 0, 0, 0]).map Value.elementCount = .ok 24 := by
  have hparse : TypeTree.parse "aay" = .ok (.array (.array (.scalar (.int .byte)))) := by rfl
  have hdecode : decode .little (.array (.array (.scalar (.int .byte))))
      [2, 0, 0, 0, 2, 0, 0, 0, 7, 8, 1, 0, 0, 0, 9] =
        .ok (.array [.array [.ofWord .byte 7, .ofWord .byte 8], .array [.ofWord .byte 9]]) := rfl
  obtain ⟨-, htext⟩ := elementCount_le_of_decode _ _ _ _ hdecode
  exact ⟨hparse, hdecode, rfl, htext "aay" hparse, rfl⟩

end Wire

end Marshal
