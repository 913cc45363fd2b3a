import QueryAnalysis.Number.Double

/-!
# The shortest decimal of a double

A decimal stands for a double if the double is the one nearest to it. The shortest such decimals
lie on the coarsest power-of-ten grid that has any, so `Decimal.shortest` walks from coarse grids
to fine ones and takes the point that is nearest to the double on the first grid with a hit. A
finite double's neighbours bound the decimals that stand for it, and the bounds themselves count
exactly if the double's last bit is zero, because ties go to the even double.

`Double.text` writes that decimal positionally, without an exponent.
-/

namespace QueryAnalysis

/-- The decimal `coefficient * 10 ^ exponent`. -/
structure Decimal where
  /-- The digits, as a natural number. -/
  coefficient : Nat
  /-- The power of ten that the last digit counts. -/
  exponent : Int
deriving DecidableEq

namespace Decimal

/-- Whether the point `coefficient` on a grid stands for `magnitude`. On that grid, one step is
worth `step` and one unit of the double `unit` of a common measure. -/
def standsFor (magnitude step unit coefficient : Nat) : Bool :=
  let below := Double.unitsOf (magnitude - 1) + Double.unitsOf magnitude
  let above := Double.unitsOf magnitude + Double.unitsOf (magnitude + 1)
  let point := 2 * coefficient * step
  if magnitude % 2 = 0 then
    decide (below * unit ≤ point) && decide (point ≤ above * unit)
  else
    decide (below * unit < point) && decide (point < above * unit)

/-- The point of the grid of multiples of `10 ^ exponent` that stands for `magnitude` and is
nearest to it; of two equally near ones the greater. -/
def onGrid? (magnitude : Nat) (exponent : Int) : Option Nat :=
  let step := Nat.pow 10 exponent.toNat * Double.unitsPerOne
  let unit := Nat.pow 10 (-exponent).toNat
  let value := Double.unitsOf magnitude * unit
  let low := value / step
  match standsFor magnitude step unit low, standsFor magnitude step unit (low + 1) with
  | true, true => if 2 * (value % step) < step then some low else some (low + 1)
  | true, false => some low
  | false, true => some (low + 1)
  | false, false => none

/-- The first hit on the grids from `exponent` downwards. -/
def search (magnitude : Nat) : Nat → Int → Decimal
  | 0, exponent => ⟨0, exponent⟩
  | grids + 1, exponent =>
    match onGrid? magnitude exponent with
    | some coefficient => ⟨coefficient, exponent⟩
    | none => search magnitude grids (exponent - 1)

/-- The shortest decimal that stands for a finite magnitude other than zero. The walk starts on
the grid above the digits of the whole part; the finest grid needed is that of the smallest
positive double, whose decimal has one digit. -/
def shortest (magnitude : Nat) : Decimal :=
  let whole := Double.unitsOf magnitude / Double.unitsPerOne
  let start := if whole = 0 then 0 else (Nat.toDigits 10 whole).length
  search magnitude (start + 345) start

/-- The decimal written positionally. -/
def text (d : Decimal) : String :=
  let digits := Nat.toDigits 10 d.coefficient
  if 0 ≤ d.exponent then
    String.ofList (digits ++ List.replicate d.exponent.toNat '0')
  else
    let places := (-d.exponent).toNat
    let padded := List.replicate (places + 1 - digits.length) '0' ++ digits
    let whole := padded.length - places
    String.ofList (padded.take whole ++ '.' :: padded.drop whole)

end Decimal

/-- The double nearest to `coefficient * 10 ^ exponent`, or its negative. Powers of ten that are
certainly beyond the largest double, or below half of the smallest one, are not computed. -/
def Double.ofDecimal (negative : Bool) (coefficient : Nat) (exponent : Int) : Double :=
  if coefficient = 0 then .ofMagnitude negative 0
  else if 400 < exponent then .ofMagnitude negative infinityMagnitude
  else if exponent + (Nat.toDigits 10 coefficient).length < -400 then .ofMagnitude negative 0
  else .nearest negative (coefficient * Nat.pow 10 exponent.toNat) (Nat.pow 10 (-exponent).toNat)

/-- The shortest decimal text of a double, without an exponent and without a point for an
integer. -/
def Double.text (d : Double) : String :=
  if d.isNaN then "NaN"
  else
    let sign := if d.isNegative then "-" else ""
    if d.isInfinite then sign ++ "inf"
    else if d.magnitude = 0 then sign ++ "0"
    else sign ++ (Decimal.shortest d.magnitude).text

end QueryAnalysis
