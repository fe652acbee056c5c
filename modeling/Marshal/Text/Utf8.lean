/-!
  Characters as bytes: UTF-8.

  `encode` writes a text, `decode` reads one back and refuses every other
  spelling. Reading goes byte by byte: `Sequence` holds what is known of a
  character whose bytes have not all been seen, with the range that its next byte
  must lie in, so overlong forms, surrogates and numbers beyond the last character
  are refused at the first byte that rules them out. A `Fault` says where the
  readable part ends.
-/

namespace Marshal.Text.Utf8

/-! ### Writing -/

def encodeChar (c : Char) : List UInt8 :=
  let n := c.toNat
  if n < 0x80 then [n.toUInt8]
  else if n < 0x800 then [(0xC0 + n / 64).toUInt8, (0x80 + n % 64).toUInt8]
  else if n < 0x10000 then
    [(0xE0 + n / 4096).toUInt8, (0x80 + n / 64 % 64).toUInt8, (0x80 + n % 64).toUInt8]
  else
    [(0xF0 + n / 262144).toUInt8, (0x80 + n / 4096 % 64).toUInt8,
      (0x80 + n / 64 % 64).toUInt8, (0x80 + n % 64).toUInt8]

def encode (text : List Char) : List UInt8 := text.flatMap encodeChar

def leadByte (c : Char) : UInt8 := (encodeChar c).headD 0

/-! ### Reading -/

inductive Fault where
  /-- The `length` bytes from `index` on begin no character. -/
  | invalid (length index : Nat)
  /-- The bytes end inside the character that begins at `index`. -/
  | incomplete (index : Nat)
deriving DecidableEq, Repr

def Fault.message : Fault → String
  | .invalid length index => s!"invalid utf-8 sequence of {length} bytes from index {index}"
  | .incomplete index => s!"incomplete utf-8 byte sequence from index {index}"

/-- A character of which `read` bytes have been seen and `owed` have not. The next
    byte must lie between `low` and `high`, and `code` holds the bits so far. -/
structure Sequence where
  read : Nat
  owed : Nat
  low : Nat
  high : Nat
  code : Nat
deriving DecidableEq, Repr

/-- What the first byte of a character of several bytes announces. -/
def Sequence.start? (byte : UInt8) : Option Sequence :=
  let b := byte.toNat
  if b < 0xC2 then none
  else if b < 0xE0 then some ⟨1, 1, 0x80, 0xBF, b - 0xC0⟩
  else if b = 0xE0 then some ⟨1, 2, 0xA0, 0xBF, 0⟩
  else if b = 0xED then some ⟨1, 2, 0x80, 0x9F, 0xD⟩
  else if b < 0xF0 then some ⟨1, 2, 0x80, 0xBF, b - 0xE0⟩
  else if b = 0xF0 then some ⟨1, 3, 0x90, 0xBF, 0⟩
  else if b < 0xF4 then some ⟨1, 3, 0x80, 0xBF, b - 0xF0⟩
  else if b = 0xF4 then some ⟨1, 3, 0x80, 0x8F, 4⟩
  else none

/-- The sequence after one more byte, if the byte can follow. Every later byte may
    be any continuation byte. -/
def Sequence.next? (q : Sequence) (byte : UInt8) : Option Sequence :=
  if q.low ≤ byte.toNat ∧ byte.toNat ≤ q.high then
    some ⟨q.read + 1, q.owed - 1, 0x80, 0xBF, q.code * 64 + (byte.toNat - 0x80)⟩
  else none

/-- Reads characters from `index` on, where `pending` is the character under way. -/
def decodeFrom (index : Nat) (pending : Option Sequence) : List UInt8 → Except Fault (List Char)
  | [] =>
      match pending with
      | none => .ok []
      | some _ => .error (.incomplete index)
  | byte :: rest =>
      match pending with
      | none =>
          if byte.toNat < 0x80 then
            (Char.ofNat byte.toNat :: ·) <$> decodeFrom (index + 1) none rest
          else
            match Sequence.start? byte with
            | none => .error (.invalid 1 index)
            | some q => decodeFrom index (some q) rest
      | some q =>
          match q.next? byte with
          | none => .error (.invalid q.read index)
          | some r =>
              if r.owed = 0 then
                (Char.ofNat r.code :: ·) <$> decodeFrom (index + r.read) none rest
              else decodeFrom index (some r) rest

def decode (bytes : List UInt8) : Except Fault (List Char) := decodeFrom 0 none bytes

end Marshal.Text.Utf8
