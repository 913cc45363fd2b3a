import QueryAnalysis.Range.Endpoint

/-!
# Intervals

An `Interval` is what lies between two endpoints, and an `IntervalUnion` is a list of intervals
read as their union. `contains?` answers in three values: it is unknown whether a value lies beyond
a parameter, or beyond a coordinate of another family.
-/

namespace QueryAnalysis

/-- The values between two endpoints. -/
structure Interval where
  lower : Endpoint
  upper : Endpoint
deriving DecidableEq

namespace Interval

/-- The interval of all values, null among them. -/
def unconstrained : Interval := ⟨.negInfinity, .posInfinity⟩

/-- The interval of no value: both endpoints are at the opposite infinity. -/
def empty : Interval := ⟨.posInfinity, .negInfinity⟩

instance : Inhabited Interval := ⟨unconstrained⟩

/-- Whether neither endpoint bounds anything. -/
def isUnconstrained (i : Interval) : Bool :=
  decide (i = unconstrained)

/-- Whether an endpoint stands on the wrong side, so that the interval has no value. An interval
whose coordinates are merely out of order is not recognised here. -/
def isEmpty (i : Interval) : Bool :=
  i.lower.role != .lower || i.upper.role != .upper

/-- Whether the interval has exactly the one value of its two coordinates. -/
def isPoint (i : Interval) : Bool :=
  match i.lower, i.upper with
  | .finite _ .closed a, .finite _ .closed b => a.compare? b == some .eq
  | _, _ => false

/-- Whether a value lies in the interval. A value that is known to fail the lower endpoint is
outside whatever the upper endpoint is. -/
def contains? (i : Interval) (value : Literal) : Option Bool :=
  if i.isEmpty then some false
  else match i.lower.above? value with
    | none => none
    | some false => some false
    | some true => i.upper.below? value

/-- How an interval begins in print. -/
def lowerText : Endpoint → String
  | .finite _ .closed coordinate => "[" ++ coordinate.text
  | .finite _ .opened coordinate => "(" ++ coordinate.text
  | infinity => "(" ++ infinity.text

/-- How an interval ends in print. -/
def upperText : Endpoint → String
  | .finite _ .closed coordinate => coordinate.text ++ "]"
  | .finite _ .opened coordinate => coordinate.text ++ ")"
  | infinity => infinity.text ++ ")"

/-- An interval as it is printed: square brackets include a coordinate, round ones do not. -/
def text (i : Interval) : String :=
  if i.isEmpty then "()"
  else match i.isPoint, i.lower.coordinate? with
    | true, some coordinate => "[" ++ coordinate.text ++ "]"
    | _, _ => lowerText i.lower ++ ", " ++ upperText i.upper

end Interval

/-- Intervals read as their union. -/
structure IntervalUnion where
  intervals : List Interval
deriving DecidableEq

namespace IntervalUnion

/-- Whether a value lies in one of the intervals: one that surely has it decides, and otherwise one
that may have it leaves the answer open. -/
def contains? (u : IntervalUnion) (value : Literal) : Option Bool :=
  let answers := u.intervals.map fun i => i.contains? value
  if some true ∈ answers then some true
  else if none ∈ answers then none
  else some false

/-- Whether there is no interval. -/
def isEmpty (u : IntervalUnion) : Bool :=
  u.intervals.isEmpty

/-- A union as it is printed. -/
def text (u : IntervalUnion) : String :=
  match u.intervals with
  | [] => "()"
  | [single] => single.text
  | many => "UNION(" ++ String.join (many.map fun i => " " ++ i.text) ++ " )"

end IntervalUnion

end QueryAnalysis
