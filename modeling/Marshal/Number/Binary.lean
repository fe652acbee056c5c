/-!
  Binary floating-point formats.

  A format keeps the magnitude of a number in one word: the exponent field above
  the fraction field. `significand` and `exponent` read a finite magnitude as
  `significand · 2 ^ exponent`, and `nearest` finds the magnitude closest to such
  a product, a tie going to the even word. `convert` carries a magnitude from one
  format to another with a single rounding.
-/

namespace Marshal

/-- Division to the nearest number, a tie going to the even one. -/
def divideEven (m n : Nat) : Nat :=
  let quotient := m / n
  let rest := m % n
  if n < 2 * rest ∨ (2 * rest = n ∧ quotient % 2 = 1) then quotient + 1 else quotient

structure BinaryFormat where
  fractionBits : Nat
  exponentBits : Nat
deriving DecidableEq, Repr

namespace BinaryFormat

def double : BinaryFormat := ⟨52, 11⟩

def single : BinaryFormat := ⟨23, 8⟩

/-! ### The fields of a word -/

/-- The number of magnitudes that share an exponent field. -/
def binade (f : BinaryFormat) : Nat := Nat.pow 2 f.fractionBits

def signBit (f : BinaryFormat) : Nat := Nat.pow 2 (f.fractionBits + f.exponentBits)

def pack (f : BinaryFormat) (negative : Bool) (magnitude : Nat) : Nat :=
  (if negative then f.signBit else 0) + magnitude

/-- The magnitude of infinity. All greater ones are not numbers. -/
def infinity (f : BinaryFormat) : Nat := (Nat.pow 2 f.exponentBits - 1) * f.binade

/-- The exponent of the last place of the smallest numbers. -/
def minExponent (f : BinaryFormat) : Int :=
  2 - (Nat.pow 2 (f.exponentBits - 1) : Nat) - f.fractionBits

/-- The significand of a finite magnitude. Only the smallest numbers lack the
    hidden leading bit. -/
def significand (f : BinaryFormat) (magnitude : Nat) : Nat :=
  if magnitude < f.binade then magnitude else f.binade + magnitude % f.binade

/-- The exponent of the last place of a finite magnitude. -/
def exponent (f : BinaryFormat) (magnitude : Nat) : Int :=
  f.minExponent + (magnitude / f.binade - 1 : Nat)

/-! ### Rounding -/

/-- The magnitude nearest to `m · 2 ^ e`, a tie going to the even one. Adding the
    rounded significand to the exponent field lets a carry move into the
    exponent, up to infinity. -/
def nearest (f : BinaryFormat) (m : Nat) (e : Int) : Nat :=
  if m = 0 then 0
  else
    let place := max (e + m.log2 - f.fractionBits) f.minExponent
    let rounded := divideEven (m * Nat.pow 2 (e - place).toNat) (Nat.pow 2 (place - e).toNat)
    min ((place - f.minExponent).toNat * f.binade + rounded) f.infinity

/-- The fraction of a quiet not-a-number with the upper bits of another fraction. -/
def quietFraction (f g : BinaryFormat) (fraction : Nat) : Nat :=
  g.binade / 2 + fraction * g.binade / f.binade % (g.binade / 2)

/-- The magnitude in format `g` nearest to a magnitude of format `f`. What is not a
    number stays so and becomes quiet. -/
def convert (f g : BinaryFormat) (magnitude : Nat) : Nat :=
  if magnitude < f.infinity then g.nearest (f.significand magnitude) (f.exponent magnitude)
  else if magnitude = f.infinity then g.infinity
  else g.infinity + quietFraction f g (magnitude % f.binade)

end BinaryFormat

end Marshal
