import Marshal.Proofs.Conformance.Coercion
import Marshal.Proofs.Datum.Reading

/-!
  Reading data out of coerced values.

  Numbers are converted in two places: weak coercion moves them to the type of the message, and
  reading moves them to the type of the program. `Shape.messageType?` is the message type that a
  type of a program has by itself. Where a value is coerced to it, the data that reading finds in
  the value is the data that the coerced value stands for (`exists_gives`), so it makes no
  difference whether a value is coerced before it is read (`read_coerced`).
-/

namespace Marshal

/-! ### What is coerced to a scalar type -/

section Scalars

variable {v w : Value}

theorem exists_bool_of_coerced (h : Coerced .bool v w) : ∃ b, v = .bool b ∧ w = .bool b := by
  cases h with
  | same hv =>
    cases v with
    | bool b => exact ⟨b, rfl, rfl⟩
    | _ => cases hv

theorem exists_integers_of_coerced {i : IntType} (h : Coerced (.int i) v w) :
    ∃ m n : Integer, v = .int m ∧ w = .int n ∧ n.type = i ∧ n.val = m.val := by
  cases h with
  | same hv =>
    cases v with
    | int n =>
      simp only [ScalarType.canonical, Bool.and_eq_true, decide_eq_true_eq] at hv
      exact ⟨n, n, rfl, rfl, ScalarType.int.inj (Option.some.inj hv.1), rfl⟩
    | _ => cases hv
  | @integer _ m n _ htype hval => exact ⟨m, n, rfl, rfl, htype, hval⟩

/-- A double stays as it is, and an integer becomes the double nearest to it. -/
theorem exists_double_of_coerced (h : Coerced .double v w) :
    ∃ x : Double, w = .double x ∧
      (v = .double x ∨ ∃ n : Integer, v = .int n ∧ x.IsNearest n.val) := by
  cases h with
  | same hv =>
    cases v with
    | double x => exact ⟨x, rfl, .inl rfl⟩
    | _ => cases hv
  | @rounded n x hnearest => exact ⟨x, rfl, .inr ⟨n, rfl, hnearest⟩⟩

theorem exists_text_of_coerced (h : Coerced .text v w) : ∃ s, v = .text s ∧ w = .text s := by
  cases h with
  | same hv =>
    obtain ⟨s, rfl, -⟩ := ScalarType.canonical_text_iff.1 hv
    exact ⟨s, rfl, rfl⟩

end Scalars

namespace Shape

open Datum

/-! ### Message types of types of a program -/

mutual

/-- The message type of a type of a program that is made of the scalars of messages, sequences and
    tuples with parts: a sequence is an array, and a tuple a struct. -/
def messageType? : Shape → Option TypeTree
  | .bool => some (.scalar .bool)
  | .int type => some (.scalar (.int type))
  | .double => some (.scalar .double)
  | .text => some (.scalar .text)
  | .sequence shape => do
      let type ← shape.messageType?
      return .array type
  | .tuple (shape :: shapes) => do
      let type ← shape.messageType?
      let types ← messageTypes? shapes
      return .struct (type :: types)
  | _ => none

def messageTypes? : List Shape → Option (List TypeTree)
  | [] => some []
  | shape :: shapes => do
      let type ← shape.messageType?
      let types ← messageTypes? shapes
      return type :: types

end

section MessageType

variable {shape : Shape} {shapes : List Shape}

theorem messageType_sequence_iff {t : TypeTree} :
    (sequence shape).messageType? = some t ↔
      ∃ element, shape.messageType? = some element ∧ .array element = t := by
  simp [messageType?, Option.bind_eq_some_iff]

theorem messageTypes_cons_iff {ts : List TypeTree} :
    messageTypes? (shape :: shapes) = some ts ↔
      ∃ type types, shape.messageType? = some type ∧ messageTypes? shapes = some types ∧
        type :: types = ts := by
  simp [messageTypes?, Option.bind_eq_some_iff]

theorem messageType_tuple_iff {t : TypeTree} :
    (tuple shapes).messageType? = some t ↔
      shapes ≠ [] ∧ ∃ types, messageTypes? shapes = some types ∧ .struct types = t := by
  cases shapes with
  | nil => simp [messageType?]
  | cons shape shapes => simp [messageType?, messageTypes?, Option.bind_eq_some_iff]

end MessageType

mutual

theorem withoutSingle_of_messageType (shape : Shape) {t : TypeTree}
    (h : shape.messageType? = some t) : shape.withoutSingle :=
  match shape with
  | .bool | .int _ | .double | .text => rfl
  | .sequence shape => by
    obtain ⟨element, helement, -⟩ := messageType_sequence_iff.1 h
    exact withoutSingle_of_messageType shape helement
  | .tuple shapes => by
    obtain ⟨-, types, htypes, -⟩ := messageType_tuple_iff.1 h
    exact allWithoutSingle_of_messageTypes shapes htypes
  | .extraInt _ | .single | .char | .unit | .unitStruct _ | .ignored _ | .optional _
  | .newtypeStruct .. | .array .. | .tupleStruct .. | .struct .. | .map .. | .enumeration .. => by
    cases h

theorem allWithoutSingle_of_messageTypes (shapes : List Shape) {ts : List TypeTree}
    (h : messageTypes? shapes = some ts) : allWithoutSingle shapes :=
  match shapes with
  | [] => rfl
  | shape :: shapes => by
    obtain ⟨type, types, htype, htypes, -⟩ := messageTypes_cons_iff.1 h
    rw [allWithoutSingle, withoutSingle_of_messageType shape htype,
      allWithoutSingle_of_messageTypes shapes htypes]
    rfl

end

/-! ### The data of a value and of its coerced form -/

/-- Whether reading finds in the first value the data that the second value stands for. -/
structure Gives (readings : Shape → Reading Datum) (shape : Shape) (v w : Value) (x : Datum) :
    Prop where
  holds : shape.Holds x
  toValue : x.toValue = .ok w
  read : (readings shape).read v = .ok x

section Gives

variable {readings : Shape → Reading Datum}

theorem exists_all_given {shape : Shape} {t : TypeTree}
    (hone : ∀ {v w}, Reshaped Coerced t v w → ∃ x, shape.Gives readings v w x) {vs ws : List Value}
    (h : List.Forall₂ (Reshaped Coerced t) vs ws) :
    ∃ xs, (∀ x ∈ xs, shape.Holds x) ∧ toValues xs = .ok ws ∧
      List.Forall₂ (fun v x => (readings shape).read v = .ok x) vs xs := by
  induction h with
  | nil => exact ⟨[], nofun, rfl, .nil⟩
  | cons hfirst _ ih =>
    obtain ⟨x, hx⟩ := hone hfirst
    obtain ⟨xs, hholds, hvalues, hread⟩ := ih
    refine ⟨x :: xs, List.forall_mem_cons.2 ⟨hx.holds, hholds⟩, ?_, .cons hx.read hread⟩
    exact toValues_cons_ok_iff.2 ⟨_, _, hx.toValue, hvalues, rfl⟩

mutual

/-- A value that can be coerced to the type that goes with a shape can be read by the shape, and
    the data is that of the coerced value. -/
theorem exists_gives (laws : ReadingLaws readings) (shape : Shape) {t : TypeTree}
    (htype : shape.messageType? = some t) {v w : Value} (h : Reshaped Coerced t v w) :
    ∃ x, shape.Gives readings v w x :=
  match shape with
  | .bool => by
    cases htype
    obtain ⟨b, rfl, rfl⟩ := exists_bool_of_coerced h
    exact ⟨.bool b, .bool b, rfl, (laws.bool b).read_eq rfl nofun nofun⟩
  | .int type => by
    cases htype
    obtain ⟨m, n, rfl, rfl, rfl, hval⟩ := exists_integers_of_coerced h
    exact ⟨.int n, .int n, rfl, (laws.int m n hval.symm).read_eq rfl nofun nofun⟩
  | .double => by
    cases htype
    obtain ⟨x, rfl, rfl | ⟨n, rfl, hnearest⟩⟩ := exists_double_of_coerced h
    · exact ⟨.double x, .double x, rfl, (laws.double x).read_eq rfl nofun nofun⟩
    · exact ⟨.double x, .double x, rfl, (laws.rounded n x hnearest).read_eq rfl nofun nofun⟩
  | .text => by
    cases htype
    obtain ⟨s, rfl, rfl⟩ := exists_text_of_coerced h
    exact ⟨.text s, .text s, rfl, (laws.text s).read_eq rfl nofun nofun⟩
  | .sequence shape => by
    obtain ⟨element, helement, rfl⟩ := messageType_sequence_iff.1 htype
    obtain ⟨vs, ws, rfl, rfl, hparts⟩ := reshaped_array_iff.1 h
    obtain ⟨xs, hholds, hvalues, hread⟩ :=
      exists_all_given (fun hpart => exists_gives laws shape helement hpart) hparts
    exact ⟨.sequence xs, .sequence hholds, toValue_sequence_ok_iff.2 ⟨ws, hvalues, rfl⟩,
      (laws.sequence shape vs xs hread).read_eq (.array vs)⟩
  | .tuple shapes => by
    obtain ⟨-, types, htypes, rfl⟩ := messageType_tuple_iff.1 htype
    obtain ⟨vs, ws, rfl, rfl, hfields⟩ := reshaped_struct_iff.1 h
    obtain ⟨xs, hholds, hvalues, hread⟩ := exists_parts_given laws shapes htypes hfields
    exact ⟨.tuple xs, .tuple hholds, toValue_tuple_ok_iff.2 ⟨ws, hvalues, rfl⟩,
      (laws.tuple shapes vs xs hread).read_eq (.struct vs)⟩
  | .extraInt _ | .single | .char | .unit | .unitStruct _ | .ignored _ | .optional _
  | .newtypeStruct .. | .array .. | .tupleStruct .. | .struct .. | .map .. | .enumeration .. => by
    cases htype

theorem exists_parts_given (laws : ReadingLaws readings) (shapes : List Shape) {ts : List TypeTree}
    (hall : messageTypes? shapes = some ts) {vs ws : List Value}
    (h : FieldsReshaped Coerced ts vs ws) :
    ∃ xs, List.Forall₂ Holds shapes xs ∧ toValues xs = .ok ws ∧
      PartsRead (shapes.map fun shape => (readings shape).read) vs xs :=
  match shapes, vs, ws with
  | [], [], [] => ⟨[], .nil, rfl, .nil⟩
  | shape :: shapes, _, _ => by
    obtain ⟨type, types, htype, htypes, rfl⟩ := messageTypes_cons_iff.1 hall
    obtain ⟨v, vs, w, ws, rfl, rfl, hfirst, hrest⟩ := fieldsReshaped_cons_iff.1 h
    obtain ⟨x, hx⟩ := exists_gives laws shape htype hfirst
    obtain ⟨xs, hholds, hvalues, hread⟩ := exists_parts_given laws shapes htypes hrest
    refine ⟨x :: xs, .cons hx.holds hholds, ?_, .cons hx.read hread⟩
    exact toValues_cons_ok_iff.2 ⟨_, _, hx.toValue, hvalues, rfl⟩

end

end Gives

/-- A value that weak coercion brings to the message type of a type of a program can be read by
    that type, before and after coercion, and both times the data is the same to the last bit: the
    data that the coerced value stands for. -/
theorem read_coerced (readings : Shape → Reading Datum) (laws : ReadingLaws readings)
    (shape : Shape) (t : TypeTree) (v w : Value) (htype : shape.messageType? = some t)
    (h : conform .weak t v = .ok w) :
    ∃ x, (readings shape).read v = .ok x ∧ (readings shape).read w = .ok x ∧
      x.toValue = .ok w := by
  obtain ⟨x, hx⟩ := exists_gives laws shape htype (conform_weak_ok_iff.1 h)
  have hwithout := withoutSingle_of_messageType shape htype
  refine ⟨x, hx.read, ?_, hx.toValue⟩
  -- the coerced value is the value of the data, so reading it is the way back
  exact read_of_toValue laws shape hwithout hx.holds hx.toValue (Recast.refl w)

/-- A list of pairs of a byte and a double, made of numbers of other types. The second number is
    halfway between two doubles and becomes the even one. -/
theorem read_coerced_pairs :
    (Shape.sequence (.tuple [.int .byte, .double])).messageType? =
      some (.array (.struct [.scalar (.int .byte), .scalar .double])) ∧
    conform .weak (.array (.struct [.scalar (.int .byte), .scalar .double]))
      (.array [.struct [.ofWord .int64 0xff, .ofWord .uint64 0x20000000000001]]) =
        .ok (.array [.struct [.ofWord .byte 0xff, .double (.ofInt 0x20000000000000)]]) ∧
    (Shape.sequence (.tuple [.int .byte, .double])).reading.read
      (.array [.struct [.ofWord .int64 0xff, .ofWord .uint64 0x20000000000001]]) =
        .ok (.sequence [.tuple [.int (.ofWord .byte 0xff),
          .double (.ofInt 0x20000000000000)]]) ∧
    (Shape.sequence (.tuple [.int .byte, .double])).reading.read
      (.array [.struct [.ofWord .byte 0xff, .double (.ofInt 0x20000000000000)]]) =
        .ok (.sequence [.tuple [.int (.ofWord .byte 0xff),
          .double (.ofInt 0x20000000000000)]]) := by
  obtain ⟨x, hv, hw, hx⟩ := read_coerced reading readingLaws_reading
    (.sequence (.tuple [.int .byte, .double]))
    (.array (.struct [.scalar (.int .byte), .scalar .double]))
    (.array [.struct [.ofWord .int64 0xff, .ofWord .uint64 0x20000000000001]])
    (.array [.struct [.ofWord .byte 0xff, .double (.ofInt 0x20000000000000)]]) rfl rfl
  cases hw
  exact ⟨rfl, rfl, hv, rfl⟩

end Shape

end Marshal
