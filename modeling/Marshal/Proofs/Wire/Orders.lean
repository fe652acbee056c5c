import Marshal.Proofs.Wire.Agreement
import Marshal.Proofs.Wire.Pieces

/-!
  The two byte orders.

  The byte order has no part in whether a value can be written: whatever is refused in one order is
  refused in the other with the same error (`agree_orders`). What it decides is the order of bytes
  inside each number. The message in one order is the message in the other with every number
  reversed where it stands, and all bytes that belong to no number stay as they are
  (`write_orders`). Where the numbers are depends on the value alone (`Value.pieces`).
-/

namespace Marshal.Wire

/-! ### Refusals in both orders -/

section Refusals

variable (order other : ByteOrder)

theorem agree_scalar_orders (c : ScalarType) (v : Value) :
    Agree (writeScalar order c v) (writeScalar other c v) := by
  cases c with
  | text =>
    cases v with
    | text s =>
      rw [writeScalar, writeScalar]
      apply Agree.bind_same
      intro _ _
      by_cases hlength : (Text.Utf8.encode s.toList).length ≤ maxCount
      · simp only [if_pos hlength]
        exact .ok _ _
      · simp only [if_neg hlength]
        exact .error _
    | _ => exact .error _
  | int c =>
    cases v with
    | int n =>
      by_cases htype : n.type = c
      · simp only [writeScalar, if_pos htype]
        exact .ok _ _
      · simp only [writeScalar, if_neg htype]
        exact .error _
    | _ => exact .error _
  | bool => cases v <;> first | exact .ok _ _ | exact .error _
  | double => cases v <;> first | exact .ok _ _ | exact .error _

mutual

/-- A value is written in both byte orders, or refused in both with the same error. -/
theorem agree_orders (t : TypeTree) (v : Value) :
    Agree (write order t v) (write other t v) :=
  match t with
  | .scalar c => agree_scalar_orders order other c v
  | .array t => by
    rw [write, write]
    apply Agree.bind_same
    intro elements _
    by_cases hcount : elements.length ≤ maxCount
    · rw [if_pos hcount, if_pos hcount]
      apply Agree.bind (agree_eachElement 0 fun v _ => agree_orders t v)
      intro parts parts'
      exact .ok _ _
    · rw [if_neg hcount, if_neg hcount]
      exact .error _
  | .struct ts => by
    rw [write, write]
    apply Agree.bind_same
    intro fields _
    exact agree_fields_orders ts 0 fields
  | .dictEntry k w => by
    rw [write, write]
    apply Agree.bind_same
    intro halves _
    apply Agree.bind (agree_orders k halves.1).inside
    intro front front'
    apply Agree.bind (agree_orders w halves.2).inside
    intro back back'
    exact .ok _ _

theorem agree_fields_orders (ts : List TypeTree) (index : Nat) (vs : List Value) :
    Agree (writeFields order index ts vs) (writeFields other index ts vs) :=
  match ts, vs with
  | [], _ => by
    rw [writeFields, writeFields]
    exact .ok [] []
  | _ :: _, [] => .ok [] []
  | t :: ts, v :: vs => by
    rw [writeFields, writeFields]
    apply Agree.bind (agree_orders t v).inside
    intro front front'
    apply Agree.bind (agree_fields_orders ts (index + 1) vs)
    intro back back'
    exact .ok _ _

end

end Refusals

/-! ### Numbers reversed in place -/

/-- A message with every number reversed where it stands, given the pieces of the message. A number
    of one byte is its own reverse. -/
def reverseNumbers : List Piece → List UInt8 → List UInt8
  | [], bytes => bytes
  | .number width _ :: pieces, bytes =>
      (bytes.take width).reverse ++ reverseNumbers pieces (bytes.drop width)
  | .raw raw :: pieces, bytes =>
      bytes.take raw.length ++ reverseNumbers pieces (bytes.drop raw.length)

theorem length_flatMap_bytes (order other : ByteOrder) (pieces : List Piece) :
    (pieces.flatMap (Piece.bytes order)).length = (pieces.flatMap (Piece.bytes other)).length := by
  induction pieces with
  | nil => rfl
  | cons p pieces ih =>
    rw [List.flatMap_cons, List.flatMap_cons, List.length_append, List.length_append, ih]
    cases p with
    | number width n => simp only [Piece.bytes, ByteOrder.length_toBytes]
    | raw raw => rfl

theorem toBytes_big (width n : Nat) :
    ByteOrder.big.toBytes width n = (ByteOrder.little.toBytes width n).reverse := rfl

/-- The two byte orders spell the same pieces, number by number in reverse. -/
theorem reverseNumbers_flatMap_bytes (pieces : List Piece) :
    reverseNumbers pieces (pieces.flatMap (Piece.bytes .little)) =
      pieces.flatMap (Piece.bytes .big) := by
  induction pieces with
  | nil => rfl
  | cons p pieces ih =>
    rw [List.flatMap_cons, List.flatMap_cons]
    cases p with
    | number width n =>
      have hwidth : (ByteOrder.little.toBytes width n).length = width := by simp
      rw [reverseNumbers, Piece.bytes, Piece.bytes, List.take_left' hwidth,
        List.drop_left' hwidth, ih, toBytes_big]
    | raw raw =>
      rw [reverseNumbers, Piece.bytes, Piece.bytes, List.take_left' rfl, List.drop_left' rfl, ih]

/-- A value is refused in both byte orders with the same error, or written in both. Then the
    messages are equally long, and the one with the highest bytes first is the other one with every
    number reversed where it stands and all other bytes as they are. -/
theorem write_orders (t : TypeTree) (v : Value) :
    (∃ e, write .little t v = .error e ∧ write .big t v = .error e) ∨
    ∃ little big, write .little t v = .ok little ∧ write .big t v = .ok big ∧
      little = v.pieces.flatMap (Piece.bytes .little) ∧
      big.length = little.length ∧ big = reverseNumbers v.pieces little := by
  rcases (agree_orders .little .big t v).error_or_ok with hrefused | ⟨little, big, hlittle, hbig⟩
  · exact .inl hrefused
  · have hpieces := bytes_of_write t hlittle
    refine .inr ⟨little, big, hlittle, hbig, hpieces, ?_, ?_⟩
    · rw [bytes_of_write t hbig, hpieces]
      exact length_flatMap_bytes .big .little v.pieces
    · rw [bytes_of_write t hbig, hpieces]
      exact (reverseNumbers_flatMap_bytes v.pieces).symm

/-- A byte, a number of two bytes, a text and a list of one truth value. -/
example :
    write .little (.struct [.scalar (.int .byte), .scalar (.int .int16), .scalar .text,
        .array (.scalar .bool)])
      (.struct [.ofWord .byte 7, .ofWord .int16 0x1234, .text "ab", .array [.bool true]]) =
        .ok [7, 0x34, 0x12, 2, 0, 0, 0, 97, 98, 0, 1, 0, 0, 0, 1, 0, 0, 0] ∧
    write .big (.struct [.scalar (.int .byte), .scalar (.int .int16), .scalar .text,
        .array (.scalar .bool)])
      (.struct [.ofWord .byte 7, .ofWord .int16 0x1234, .text "ab", .array [.bool true]]) =
        .ok [7, 0x12, 0x34, 0, 0, 0, 2, 97, 98, 0, 0, 0, 0, 1, 0, 0, 0, 1] :=
  ⟨rfl, rfl⟩

end Marshal.Wire
