import Marshal.Number.Binary

/-!
  The shortest decimal that reads back.

  A finite binary number stands for every real number that rounds to it. Among the
  decimals in that interval `shortest` picks one with the fewest digits, and of
  those the nearest to the number itself. It looks at one grid of decimals after
  the other, each with one more digit, and on a grid only at the two neighbours of
  the number, because a grid that has any point in the interval has a neighbour in
  it.
-/

namespace Marshal

/-- A positive decimal number: the fraction `0.d₁d₂…` scaled by `10 ^ point`. -/
structure Decimal where
  digits : List Char
  point : Int
deriving DecidableEq, Repr

namespace Decimal

/-- The decimal `coefficient · 10 ^ exponent`, without zeros at its end. -/
def ofScientific (coefficient : Nat) (exponent : Int) : Decimal :=
  let digits := Nat.toDigits 10 coefficient
  ⟨(digits.reverse.dropWhile (· == '0')).reverse, digits.length + exponent⟩

end Decimal

/-- A positive number with the interval that rounds to it. The three numbers are
    numerators over one denominator, and `closed` tells whether the two ends
    belong to the interval. -/
structure RoundingInterval where
  low : Nat
  value : Nat
  high : Nat
  denominator : Nat
  closed : Bool
deriving DecidableEq, Repr

namespace RoundingInterval

/-- The interval of a positive finite magnitude. The step to the next smaller
    number is half as long where the exponent changes. The ends round to the
    number iff its significand is even. -/
def ofMagnitude (f : BinaryFormat) (magnitude : Nat) : RoundingInterval :=
  let m := f.significand magnitude
  let e := f.exponent magnitude - 2
  let below := if m = f.binade then 1 else 2
  let scale := Nat.pow 2 e.toNat
  ⟨(4 * m - below) * scale, 4 * m * scale, (4 * m + 2) * scale, Nat.pow 2 (-e).toNat, m % 2 == 0⟩

def leadingExponent (numerator denominator : Nat) : Int :=
  if denominator ≤ numerator then
    ((Nat.toDigits 10 (numerator / denominator)).length : Int) - 1
  else
    -((Nat.toDigits 10 ((denominator + numerator - 1) / numerator - 1)).length : Int)

def inUnits (i : RoundingInterval) (exponent : Int) : RoundingInterval :=
  let scale := Nat.pow 10 (-exponent).toNat
  ⟨i.low * scale, i.value * scale, i.high * scale, i.denominator * Nat.pow 10 exponent.toNat,
    i.closed⟩

def contains (i : RoundingInterval) (n : Nat) : Bool :=
  let scaled := n * i.denominator
  if i.closed then decide (i.low ≤ scaled ∧ scaled ≤ i.high)
  else decide (i.low < scaled ∧ scaled < i.high)

/-- The whole number in the interval that is nearest to the value, a tie going up,
    if one of the value's two neighbours lies in the interval. -/
def nearestWhole? (i : RoundingInterval) : Option Nat :=
  let floor := i.value / i.denominator
  let rest := i.value % i.denominator
  if i.contains (floor + 1) ∧ (i.denominator ≤ 2 * rest ∨ ¬ i.contains floor) then
    some (floor + 1)
  else if i.contains floor then some floor
  else none

/-- The shortest decimal of the interval, looking at up to `fuel` more digits. -/
def shortestFrom (i : RoundingInterval) (exponent : Int) : Nat → Decimal
  | 0 => .ofScientific ((i.inUnits exponent).value / (i.inUnits exponent).denominator) exponent
  | fuel + 1 =>
      match (i.inUnits exponent).nearestWhole? with
      | some n => .ofScientific n exponent
      | none => shortestFrom i (exponent - 1) fuel

/-- The shortest decimal of the interval. Seventeen digits tell any two numbers of
    up to double precision apart. -/
def shortest (i : RoundingInterval) : Decimal :=
  i.shortestFrom (leadingExponent i.value i.denominator) 17

end RoundingInterval

end Marshal
