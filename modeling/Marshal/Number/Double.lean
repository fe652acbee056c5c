import Marshal.Number.Binary

/-!
  Double and single precision numbers as words.

  A number is its bit pattern: two numbers are equal when all their bits are, so
  zero has two signs and what is not a number equals itself. Integers are rounded
  to the nearest number once, and the two precisions convert into each other.
-/

namespace Marshal

/-- A double precision number, given by its bits. -/
structure Double where
  bits : UInt64
deriving DecidableEq, Repr

structure Single where
  bits : UInt32
deriving DecidableEq, Repr

namespace Double

def negative (x : Double) : Bool := decide (BinaryFormat.double.signBit ≤ x.bits.toNat)

def magnitude (x : Double) : Nat := x.bits.toNat % BinaryFormat.double.signBit

def ofParts (negative : Bool) (magnitude : Nat) : Double :=
  ⟨(BinaryFormat.double.pack negative magnitude).toUInt64⟩

/-- The number nearest to an integer, a tie going to the even one. -/
def ofInt (n : Int) : Double :=
  ofParts (decide (n < 0)) (BinaryFormat.double.nearest n.natAbs 0)

end Double

namespace Single

def negative (x : Single) : Bool := decide (BinaryFormat.single.signBit ≤ x.bits.toNat)

def magnitude (x : Single) : Nat := x.bits.toNat % BinaryFormat.single.signBit

def ofParts (negative : Bool) (magnitude : Nat) : Single :=
  ⟨(BinaryFormat.single.pack negative magnitude).toUInt32⟩

/-- The number nearest to an integer, a tie going to the even one. -/
def ofInt (n : Int) : Single :=
  ofParts (decide (n < 0)) (BinaryFormat.single.nearest n.natAbs 0)

def ofDouble (x : Double) : Single :=
  ofParts x.negative (BinaryFormat.double.convert .single x.magnitude)

def toDouble (x : Single) : Double :=
  .ofParts x.negative (BinaryFormat.single.convert .double x.magnitude)

end Single

end Marshal
