import Marshal.Proofs.Wire.Format

/-!
  The pieces of a message.

  A message is a row of numbers, whose bytes the byte order arranges, and of bytes that stand as
  they are. Which pieces there are depends on the value alone (`Value.pieces`): the type decides
  whether a value may be written but has no part in what is written for it (`bytes_of_write`).
-/

namespace Marshal

namespace Wire

/-- A piece of a message: a number in the byte order of the message, or bytes in their own
    order. -/
inductive Piece where
  | number (width n : Nat)
  | raw (bytes : List UInt8)
deriving DecidableEq, Repr

def Piece.bytes (order : ByteOrder) : Piece → List UInt8
  | .number width n => order.toBytes width n
  | .raw bytes => bytes

end Wire

namespace Value

open Wire

mutual

def pieces : Value → List Piece
  | .bool b => [.number 4 b.toNat]
  | .int n => [.number n.type.width n.toWord]
  | .double x => [.number 8 x.bits.toNat]
  | .text s =>
      [.number 4 (Text.Utf8.encode s.toList).length, .raw (Text.Utf8.encode s.toList ++ [0])]
  | .array vs => .number 4 vs.length :: piecesList vs
  | .struct vs => piecesList vs
  | .dictEntry k v => k.pieces ++ v.pieces

def piecesList : List Value → List Piece
  | [] => []
  | v :: vs => v.pieces ++ piecesList vs

end

end Value

namespace Wire

section Bytes

variable {order : ByteOrder}

theorem bytes_of_writeScalar {c : ScalarType} {v : Value} {bytes : List UInt8}
    (h : writeScalar order c v = .ok bytes) : bytes = v.pieces.flatMap (Piece.bytes order) := by
  cases c with
  | text =>
    obtain ⟨s, rfl, -, -, rfl⟩ := writeScalar_text_ok_iff.1 h
    simp [Value.pieces, Piece.bytes, textBytes]
  | int c =>
    cases v with
    | int n =>
      rw [writeScalar] at h
      split at h
      · next htype =>
        cases h
        simp [Value.pieces, Piece.bytes, htype]
      · cases h
    | _ => cases h
  | bool => cases v <;> cases h; simp [Value.pieces, Piece.bytes]
  | double => cases v <;> cases h; simp [Value.pieces, Piece.bytes]

theorem bytes_of_elements {write : Value → Except Error (List UInt8)}
    (hone : ∀ v bytes, write v = .ok bytes → bytes = v.pieces.flatMap (Piece.bytes order))
    {vs : List Value} {parts : List (List UInt8)}
    (h : List.Forall₂ (fun v part => write v = .ok part) vs parts) :
    parts.flatten = (Value.piecesList vs).flatMap (Piece.bytes order) := by
  induction h with
  | nil => rfl
  | cons hpart _ ih =>
    rw [Value.piecesList, List.flatMap_append, ← hone _ _ hpart, ← ih, List.flatten_cons]

mutual

/-- What is written for a value are its pieces, whatever its type. -/
theorem bytes_of_write (t : TypeTree) {v : Value} {bytes : List UInt8}
    (h : write order t v = .ok bytes) : bytes = v.pieces.flatMap (Piece.bytes order) :=
  match t with
  | .scalar _ => bytes_of_writeScalar h
  | .array t => by
    obtain ⟨elements, parts, rfl, -, hparts, rfl⟩ := write_array_ok_iff.1 h
    rw [bytes_of_elements (fun _ _ hw => bytes_of_write t hw) hparts]
    rfl
  | .struct ts => by
    obtain ⟨fields, rfl, hlength, hfields⟩ := write_struct_ok_iff.1 h
    exact bytes_of_writeFields ts hlength hfields
  | .dictEntry k w => by
    obtain ⟨key, value, front, back, rfl, hfront, hback, rfl⟩ := write_dictEntry_ok_iff.1 h
    rw [Value.pieces, List.flatMap_append, ← bytes_of_write k hfront, ← bytes_of_write w hback]

theorem bytes_of_writeFields (ts : List TypeTree) {index : Nat} {vs : List Value}
    {bytes : List UInt8} (hlength : vs.length = ts.length)
    (h : writeFields order index ts vs = .ok bytes) :
    bytes = (Value.piecesList vs).flatMap (Piece.bytes order) :=
  match ts, vs with
  | [], [] => by cases h; rfl
  | t :: ts, v :: vs => by
    obtain ⟨front, back, hfront, hback, rfl⟩ := writeFields_cons_ok_iff.1 h
    have hrest := bytes_of_writeFields ts (Nat.succ.inj hlength) hback
    rw [Value.piecesList, List.flatMap_append, ← bytes_of_write t hfront, ← hrest]

end

end Bytes

end Wire

end Marshal
