import Marshal.Settings

/-!
  Numbers as bytes.

  A word is a number of a fixed count of bytes. Little-endian bytes are its digits
  to the base 256, lowest first, and big-endian bytes are the same ones reversed.
  Reading undoes writing for every number that fits (`ofBytes_toBytes`), and writing
  undoes reading (`toBytes_ofBytes`).

  The operations are the `put_` and `get_` methods of the two byte orders.
-/

namespace Marshal.Wire

/-- The lowest `width` digits of a number to the base 256, lowest first. -/
def littleEndian : (width n : Nat) → List UInt8
  | 0, _ => []
  | width + 1, n => n.toUInt8 :: littleEndian width (n / 256)

/-- The number with the given digits to the base 256, lowest first. -/
def ofLittleEndian : List UInt8 → Nat
  | [] => 0
  | b :: bs => b.toNat + 256 * ofLittleEndian bs

@[simp]
theorem length_littleEndian (width n : Nat) : (littleEndian width n).length = width := by
  induction width generalizing n with
  | zero => rfl
  | succ width ih => simp [littleEndian, ih]

theorem ofLittleEndian_littleEndian {width n : Nat} (h : n < Nat.pow 256 width) :
    ofLittleEndian (littleEndian width n) = n := by
  induction width generalizing n with
  | zero => simp [littleEndian, ofLittleEndian] at h ⊢; omega
  | succ width ih =>
    have step : Nat.pow 256 (width + 1) = Nat.pow 256 width * 256 := rfl
    have := ih (n := n / 256) (Nat.div_lt_of_lt_mul (by omega))
    simp [littleEndian, ofLittleEndian, this]
    omega

theorem littleEndian_ofLittleEndian (bs : List UInt8) :
    littleEndian bs.length (ofLittleEndian bs) = bs := by
  induction bs with
  | nil => rfl
  | cons b bs ih =>
    have h := b.toNat_lt
    have low : (b.toNat + 256 * ofLittleEndian bs).toUInt8 = b := by
      apply UInt8.toNat_inj.1
      simp
    have high : (b.toNat + 256 * ofLittleEndian bs) / 256 = ofLittleEndian bs := by omega
    simp [littleEndian, ofLittleEndian, low, high, ih]

end Marshal.Wire

namespace Marshal.ByteOrder

/-- Little-endian bytes in a byte order, and back. -/
def arrange : ByteOrder → List UInt8 → List UInt8
  | .little, bytes => bytes
  | .big, bytes => bytes.reverse

def toBytes (order : ByteOrder) (width n : Nat) : List UInt8 :=
  order.arrange (Wire.littleEndian width n)

def ofBytes (order : ByteOrder) (bytes : List UInt8) : Nat :=
  Wire.ofLittleEndian (order.arrange bytes)

@[simp]
theorem arrange_arrange (order : ByteOrder) (bytes : List UInt8) :
    order.arrange (order.arrange bytes) = bytes := by
  cases order <;> simp [arrange]

@[simp]
theorem length_arrange (order : ByteOrder) (bytes : List UInt8) :
    (order.arrange bytes).length = bytes.length := by
  cases order <;> simp [arrange]

@[simp]
theorem length_toBytes (order : ByteOrder) (width n : Nat) :
    (order.toBytes width n).length = width := by
  simp [toBytes]

/-- Both byte orders tell a number that fits the width. -/
theorem ofBytes_toBytes (order : ByteOrder) {width n : Nat} (h : n < Nat.pow 256 width) :
    order.ofBytes (order.toBytes width n) = n := by
  simp [ofBytes, toBytes, Wire.ofLittleEndian_littleEndian h]

theorem toBytes_ofBytes (order : ByteOrder) (bytes : List UInt8) :
    order.toBytes bytes.length (order.ofBytes bytes) = bytes := by
  have h := Wire.littleEndian_ofLittleEndian (order.arrange bytes)
  rw [length_arrange] at h
  simp [ofBytes, toBytes, h]

end Marshal.ByteOrder
