import QueryAnalysis.Literal
import QueryAnalysis.Schema
import QueryAnalysis.Range.Policy

/-!
# Endpoints of intervals

An `Endpoint` is one of the two infinities, or a coordinate together with the side of an interval
that it bounds and with whether the coordinate itself belongs to the interval.

Minus infinity naturally bounds from below and plus infinity from above. An endpoint that rounding
pushed to the opposite infinity bounds nothing: an interval that has one there is empty.

`Endpoint.above?` and `Endpoint.below?` say what an endpoint admits as a lower and as an upper
bound. `Endpoint.compare?` orders endpoints by that: at one coordinate an open upper endpoint comes
before the closed ones, and an open lower endpoint after them.
-/

namespace QueryAnalysis

/-- Whether an endpoint's coordinate belongs to the interval. -/
inductive Strictness where
  /-- It does not. -/
  | opened
  /-- It does. -/
  | closed
deriving DecidableEq

/-- The other strictness. -/
def Strictness.complement : Strictness → Strictness
  | opened => closed
  | closed => opened

/-- The side of an interval that an endpoint bounds. -/
inductive Role where
  | lower
  | upper
deriving DecidableEq

/-- The values that a column can hold. -/
structure Domain where
  type : DataType
  nullable : Bool
deriving DecidableEq

/-- The values that a field can hold. -/
def Field.domain (field : Field) : Domain :=
  ⟨field.type, field.nullable⟩

/-! ### Coordinates -/

/-- A point on the line of values: a literal, or a parameter that is not known yet. -/
inductive Coordinate where
  | literal (value : Literal)
  | parameter (index : Nat)
deriving DecidableEq

namespace Coordinate

/-- Whether the coordinate is the literal null. -/
def isNull : Coordinate → Bool
  | literal value => value.isNull
  | parameter _ => false

/-- The order of two coordinates: that of their literals, and a parameter equals itself. -/
def compare? : Coordinate → Coordinate → Option Ordering
  | literal a, literal b => a.compare? b
  | parameter a, parameter b => if a = b then some .eq else none
  | _, _ => none

/-- Whether two coordinates are the same literal or the same parameter. -/
def isSame : Coordinate → Coordinate → Bool
  | literal a, literal b => a.isSame b
  | parameter a, parameter b => a == b
  | _, _ => false

/-- Where a value lies, seen from the coordinate; unknown for a parameter. -/
def position? (value : Literal) : Coordinate → Option Ordering
  | literal coordinate => value.compare? coordinate
  | parameter _ => none

/-- A coordinate as it is printed. -/
def text : Coordinate → String
  | literal value => value.text
  | parameter index => parameterText index

/-- The integer that takes the place of a coordinate over an integral domain, with the strictness
there. A fraction moves up to the next integer, which bounds the same integers: a lower endpoint
includes it, an upper one does not. Other coordinates have no place among the integers. -/
def integral? (role : Role) (strictness : Strictness) : Coordinate → Option (Int × Strictness)
  | literal (.int value) => some (value.toInt, strictness)
  | literal (.float value) =>
    if value.isFinite then
      if value.isWhole then some (value.ceil, strictness)
      else match role with
        | .lower => some (value.ceil, .closed)
        | .upper => some (value.ceil, .opened)
    else none
  | _ => none

end Coordinate

/-! ### Endpoints -/

/-- One end of an interval. -/
inductive Endpoint where
  | negInfinity
  | posInfinity
  | finite (role : Role) (strictness : Strictness) (coordinate : Coordinate)
deriving DecidableEq

namespace Endpoint

/-- The open lower endpoint at null: above it lies everything but null. -/
def aboveNull : Endpoint :=
  finite .lower .opened (.literal .null)

/-- The endpoint at an integer over a domain of the integers from `least` to `greatest`. Where it
admits no integer of the domain it is the infinity that admits nothing, and where it admits all of
them the one that admits everything. -/
def ofIntegral (least greatest : Int) (role : Role) (strictness : Strictness) (value : Int) :
    Endpoint :=
  let inside := finite role strictness (.literal (.int (Int64.ofInt value)))
  match role with
  | .lower =>
    if greatest < value ∨ (value = greatest ∧ strictness = .opened) then posInfinity
    else if value < least then negInfinity
    else inside
  | .upper =>
    if value < least ∨ (value = least ∧ strictness = .opened) then negInfinity
    else if greatest < value then posInfinity
    else inside

/-- The endpoint at a coordinate over a domain: over an integral domain at an integer of it. -/
def rounded (domain : Domain) (role : Role) (strictness : Strictness) (coordinate : Coordinate) :
    Endpoint :=
  match domain.type.integralRange?, coordinate.integral? role strictness with
  | some (least, greatest), some (value, strictness) =>
    ofIntegral least greatest role strictness value
  | _, _ => finite role strictness coordinate

/-- The side that the endpoint bounds; for an infinity the side on which it bounds nothing. -/
def role : Endpoint → Role
  | negInfinity => .lower
  | posInfinity => .upper
  | finite role _ _ => role

/-- Whether the endpoint has a coordinate. -/
def isFinite : Endpoint → Bool
  | finite .. => true
  | _ => false

/-- The coordinate of a finite endpoint. -/
def coordinate? : Endpoint → Option Coordinate
  | finite _ _ coordinate => some coordinate
  | _ => none

/-- The parameter at which a finite endpoint stands. -/
def parameter? : Endpoint → Option Nat
  | finite _ _ (.parameter index) => some index
  | _ => none

/-- Whether the endpoint's coordinate is null. -/
def isNull : Endpoint → Bool
  | finite _ _ coordinate => coordinate.isNull
  | _ => false

/-- Whether the coordinate is excluded; an infinity is never included. -/
def strictness : Endpoint → Strictness
  | finite _ strictness _ => strictness
  | _ => .opened

/-- Whether the coordinate belongs to the interval. -/
def isClosed (e : Endpoint) : Bool :=
  decide (e.strictness = .closed)

/-- How an endpoint stands to its coordinate: an open lower endpoint is just above it, an open
upper endpoint just below, a closed one at it. -/
def offset (e : Endpoint) : Int :=
  match e.strictness, e.role with
  | .closed, _ => 0
  | .opened, .lower => 1
  | .opened, .upper => -1

/-- The order of endpoints on the line of values, unknown where that of their coordinates is. -/
def compare? : Endpoint → Endpoint → Option Ordering
  | negInfinity, negInfinity => some .eq
  | posInfinity, posInfinity => some .eq
  | negInfinity, _ => some .lt
  | _, posInfinity => some .lt
  | _, negInfinity => some .gt
  | posInfinity, _ => some .gt
  | a@(finite _ _ ca), b@(finite _ _ cb) =>
    (ca.compare? cb).map fun order => order.then (compare a.offset b.offset)

/-- Whether two endpoints meet: they share a coordinate and one of them includes it. -/
def touches (a b : Endpoint) : Bool :=
  match a.coordinate?, b.coordinate? with
  | some ca, some cb => ca.compare? cb == some .eq && (a.isClosed || b.isClosed)
  | _, _ => false

/-- Whether two endpoints are the same. -/
def isSame : Endpoint → Endpoint → Bool
  | negInfinity, negInfinity => true
  | posInfinity, posInfinity => true
  | finite r s c, finite r' s' c' => r == r' && s == s' && c.isSame c'
  | _, _ => false

/-- Whether a value satisfies the endpoint as a lower bound. -/
def above? (e : Endpoint) (value : Literal) : Option Bool :=
  match e with
  | negInfinity => some true
  | posInfinity => some false
  | finite _ .opened coordinate => (coordinate.position? value).map fun order => order == .gt
  | finite _ .closed coordinate => (coordinate.position? value).map fun order => order != .lt

/-- Whether a value satisfies the endpoint as an upper bound. -/
def below? (e : Endpoint) (value : Literal) : Option Bool :=
  match e with
  | negInfinity => some false
  | posInfinity => some true
  | finite _ .opened coordinate => (coordinate.position? value).map fun order => order == .lt
  | finite _ .closed coordinate => (coordinate.position? value).map fun order => order != .gt

/-- The relation that a finite endpoint of some role and strictness asks for. -/
def relationText : Role → Strictness → String
  | .lower, .opened => ">"
  | .lower, .closed => ">="
  | .upper, .opened => "<"
  | .upper, .closed => "<="

/-- An endpoint as it is printed: the relation to its coordinate that it asks for. -/
def text : Endpoint → String
  | negInfinity => "-infinity"
  | posInfinity => "+infinity"
  | finite role strictness coordinate => relationText role strictness ++ " " ++ coordinate.text

end Endpoint

/-- The endpoint at a coordinate under a policy: rounded to the domain if the policy says so. -/
def RangePolicy.endpoint (policy : RangePolicy) (domain : Domain) (role : Role)
    (strictness : Strictness) (coordinate : Coordinate) : Endpoint :=
  if policy.roundsIntegral then .rounded domain role strictness coordinate
  else .finite role strictness coordinate

end QueryAnalysis
