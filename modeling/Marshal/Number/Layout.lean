import Marshal.Number.Double
import Marshal.Number.Shortest

/-!
  The text of a double precision number.

  Both texts show the shortest digits that read back and keep a digit after the
  point. `Double.text` changes to an exponent for very large and very small
  numbers, `Double.positionalText` never does.
-/

namespace Marshal

/-- Which numbers are written without an exponent: those whose leading digit has
    an exponent from `least` to `greatest`, or all of them. -/
inductive Layout where
  | between (least greatest : Int)
  | always
deriving DecidableEq, Repr

def Layout.isPositional (layout : Layout) (exponent : Int) : Bool :=
  match layout with
  | .between least greatest => decide (least ≤ exponent ∧ exponent ≤ greatest)
  | .always => true

namespace Decimal

def positional (d : Decimal) : String :=
  let whole := d.digits.take d.point.toNat
  let missing := List.replicate (d.point.toNat - whole.length) '0'
  let fraction := List.replicate (-d.point).toNat '0' ++ d.digits.drop d.point.toNat
  let shown (digits : List Char) := if digits.isEmpty then ['0'] else digits
  String.ofList (shown (whole ++ missing) ++ '.' :: shown fraction)

/-- A number with one digit before the point and an exponent. The point is left out
    when no digit follows it. -/
def scientific (d : Decimal) : String :=
  let fraction := d.digits.drop 1
  let mantissa := d.digits.take 1 ++ (if fraction.isEmpty then [] else '.' :: fraction)
  String.ofList mantissa ++ "e" ++ toString (d.point - 1)

end Decimal

def magnitudeText (layout : Layout) (magnitude : Nat) : String :=
  if magnitude = 0 then "0.0"
  else
    let d := (RoundingInterval.ofMagnitude .double magnitude).shortest
    if layout.isPositional (d.point - 1) then d.positional else d.scientific

/-- The text of a number. What is not a number has no sign. -/
def Double.render (layout : Layout) (x : Double) : String :=
  if BinaryFormat.double.infinity < x.magnitude then "NaN"
  else
    let sign := if x.negative then "-" else ""
    if x.magnitude = BinaryFormat.double.infinity then sign ++ "inf"
    else sign ++ magnitudeText layout x.magnitude

/-- The text of a number with an exponent from `1e16` on and below `1e-4`. -/
def Double.text (x : Double) : String := x.render (.between (-4) 15)

def Double.positionalText (x : Double) : String := x.render .always

end Marshal
