/-!
# Double-precision numbers

`Double` is a number of the binary interchange format with 64 bits. Everything about it is
computed from its bits in integer arithmetic, so it can be reasoned about:

* every finite double is an integer multiple of the smallest positive one, and `Double.units` is
  that integer. Equations between exact values are equations between such integers;
* `Double.rank` is the position of a double on the number line. The order of doubles is the order
  of their ranks, in which the two zeros share a place and the infinities stand at the ends;
* `Double.nearest` is the double nearest to a fraction, a tie going to the even one.
-/

namespace QueryAnalysis

/-- A double-precision number, as its 64 bits: the sign, eleven bits of exponent and fifty-two
bits of fraction. -/
structure Double where
  /-- The bits, sign first. -/
  bits : UInt64
deriving DecidableEq

namespace Double

/-! ### Magnitudes

The lower 63 bits of a double, read as a natural number, order the magnitudes: zero, the subnormal
numbers, the normal numbers, infinity, and above it the bit patterns that are no numbers. -/

/-- The weight of the lowest exponent bit: the fifty-second power of two. -/
def exponentWeight : Nat := 4503599627370496

/-- The weight of the sign bit: the sixty-third power of two. -/
def signWeight : Nat := 9223372036854775808

/-- The magnitude of infinity: all exponent bits set, no fraction bit. -/
def infinityMagnitude : Nat := 2047 * exponentWeight

/-- How many multiples of the smallest positive double a finite magnitude is. The exponent field
counts doublings; a zero exponent field means that the leading one is absent. -/
def unitsOf (magnitude : Nat) : Nat :=
  let exponent := magnitude / exponentWeight
  let fraction := magnitude % exponentWeight
  if exponent = 0 then fraction else (fraction + exponentWeight) <<< (exponent - 1)

/-- The number of units in one: the smallest positive double is `2 ^ (-1074)`. -/
def unitsPerOne : Nat := 1 <<< 1074

/-- The quotient rounded to the nearest natural number, a tie to the even one. -/
def divNearest (num den : Nat) : Nat :=
  let quotient := num / den
  let twice := 2 * (num % den)
  if twice < den then quotient
  else if den < twice then quotient + 1
  else quotient + quotient % 2

/-- The magnitude nearest to the fraction `num / den`. The last place is worth `2 ^ shift` units,
the least such that 53 bits suffice; a carry out of the 53 bits moves on to the next exponent by
itself. Beyond the finite magnitudes lies infinity. -/
def nearestMagnitude (num den : Nat) : Nat :=
  let exact := num * unitsPerOne
  let shift := (exact / den).log2 - 52
  min (shift * exponentWeight + divNearest exact (den <<< shift)) infinityMagnitude

/-! ### Numbers -/

/-- Whether the sign bit is set. -/
def isNegative (d : Double) : Bool :=
  decide (signWeight ≤ d.bits.toNat)

/-- The bits without the sign bit. -/
def magnitude (d : Double) : Nat :=
  d.bits.toNat % signWeight

/-- Whether the bits stand for no number. -/
def isNaN (d : Double) : Bool :=
  decide (infinityMagnitude < d.magnitude)

/-- Whether the number is one of the two infinities. -/
def isInfinite (d : Double) : Bool :=
  decide (d.magnitude = infinityMagnitude)

/-- Whether the number is neither infinite nor absent. -/
def isFinite (d : Double) : Bool :=
  decide (d.magnitude < infinityMagnitude)

/-- The double with the given sign and magnitude. -/
def ofMagnitude (negative : Bool) (magnitude : Nat) : Double :=
  ⟨UInt64.ofNat ((if negative then signWeight else 0) + magnitude)⟩

/-- The value of a finite double, counted in units of the smallest positive one. -/
def units (d : Double) : Int :=
  if d.isNegative then -(unitsOf d.magnitude : Int) else unitsOf d.magnitude

/-- The place of a number on the number line; both zeros have place 0. -/
def rank (d : Double) : Int :=
  if d.isNegative then -(d.magnitude : Int) else d.magnitude

/-- The order of two numbers; without an answer if either is no number. -/
def compare? (a b : Double) : Option Ordering :=
  if a.isNaN || b.isNaN then none else some (compare a.rank b.rank)

theorem isNaN_eq_false_of_isFinite {d : Double} (h : d.isFinite = true) : d.isNaN = false := by
  have h := of_decide_eq_true h
  exact decide_eq_false (by omega)

theorem isNaN_eq_false_of_isInfinite {d : Double} (h : d.isInfinite = true) : d.isNaN = false := by
  have h := of_decide_eq_true h
  exact decide_eq_false (by omega)

/-- Numbers are ordered by their places. -/
theorem compare?_of_isNaN_eq_false {a b : Double} (ha : a.isNaN = false) (hb : b.isNaN = false) :
    a.compare? b = some (compare a.rank b.rank) := by
  rw [compare?, ha, hb]
  rfl

/-- Whether two doubles are the same number. The two zeros are, and what is no number is not even
the same as itself. -/
def isSame (a b : Double) : Bool :=
  a.compare? b == some .eq

/-! ### Conversions -/

/-- The double nearest to `num / den`, or its negative. -/
def nearest (negative : Bool) (num den : Nat) : Double :=
  ofMagnitude negative (nearestMagnitude num den)

/-- The double nearest to an integer. -/
def ofInt (i : Int) : Double :=
  nearest (decide (i < 0)) i.natAbs 1

/-- Whether a finite double is an integer. -/
def isWhole (d : Double) : Bool :=
  decide (d.units % (unitsPerOne : Int) = 0)

/-- The least integer that a finite double does not exceed. -/
def ceil (d : Double) : Int :=
  -(-d.units / (unitsPerOne : Int))

end Double

end QueryAnalysis
