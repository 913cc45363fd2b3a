import QueryAnalysis.Range.Interval

/-!
# Range constraints on a column

A `RangeConstraint` is one interval over a domain together with a null semantics, and
`RangeConstraint.evaluate` resolves the two into the intervals of values that satisfy the
constraint. `RangeConstraint.complement` gives the values other than null that do not.

The evaluation never has more than one interval, and a complement never more than two.
-/

namespace QueryAnalysis

/-! ### Constraints -/

/-- An interval over a domain, with the part that null takes in it. -/
structure RangeConstraint where
  domain : Domain
  semantics : NullSemantics
  interval : Interval
deriving DecidableEq

/-- An interval with its null semantics as it is printed; the three-valued one goes without
saying. -/
def rangeText (semantics : NullSemantics) (interval : Interval) : String :=
  if semantics = .matchesNothing then interval.text
  else interval.text ++ " " ++ semantics.name

namespace RangeConstraint

/-- A constraint as it is printed. -/
def text (c : RangeConstraint) : String :=
  rangeText c.semantics c.interval

/-- Whether both coordinates are there and known to leave no value between them. -/
def isInverted (c : RangeConstraint) : Bool :=
  match c.interval.lower.coordinate?, c.interval.upper.coordinate? with
  | some low, some high =>
    match low.compare? high with
    | some .gt => true
    | some .eq => !(c.interval.lower.isClosed && c.interval.upper.isClosed)
    | _ => false
  | _, _ => false

/-- The interval of the values that satisfy a constraint which is neither empty nor inverted.
Under three-valued logic a bound excludes null from a nullable domain, and where null matches
anything a range that reaches down to null takes in everything. -/
def resolved (c : RangeConstraint) : Interval :=
  let lower := c.interval.lower
  let upper := c.interval.upper
  let reachesNull := !lower.isFinite || lower.isNull
  match c.semantics with
  | .matchesNothing =>
    if c.domain.nullable && (lower.isFinite || upper.isFinite) && reachesNull then
      ⟨.aboveNull, upper⟩
    else c.interval
  | .matchesNull => c.interval
  | .matchesAnything =>
    if reachesNull || upper.isNull then .unconstrained else c.interval

/-- The values that satisfy the constraint: one interval, or none at all if an endpoint is on the
wrong side, if the coordinates are out of order, or if three-valued logic meets a null
coordinate. -/
def evaluate (c : RangeConstraint) : IntervalUnion :=
  if c.interval.isEmpty then ⟨[]⟩
  else if c.semantics = .matchesNothing
      ∧ (c.interval.lower.isNull || c.interval.upper.isNull) = true then ⟨[]⟩
  else if c.isInverted then ⟨[]⟩
  else ⟨[c.resolved]⟩

/-- The part of a complement below an interval: from just above null to the interval. Nothing lies
there if the interval begins at null or at minus infinity. -/
def complementBelow (i : Interval) : List Interval :=
  match i.lower.coordinate? with
  | some coordinate =>
    if coordinate.isNull then []
    else [⟨.aboveNull, .finite .upper i.lower.strictness.complement coordinate⟩]
  | none => []

/-- The part of a complement above an interval. -/
def complementAbove (i : Interval) : List Interval :=
  match i.upper.coordinate? with
  | some coordinate => [⟨.finite .lower i.upper.strictness.complement coordinate, .posInfinity⟩]
  | none => []

/-- The values other than null that do not satisfy the constraint, whatever its null semantics.
Only a constraint that nothing satisfies has a complement with null in it. -/
def complement (c : RangeConstraint) : IntervalUnion :=
  match c.evaluate.intervals.head? with
  | none => ⟨[.unconstrained]⟩
  | some matched =>
    if matched.isUnconstrained then ⟨[]⟩
    else ⟨complementBelow matched ++ complementAbove matched⟩

/-- The parameters among the coordinates, each once, in ascending order. -/
def parameters (c : RangeConstraint) : List Nat :=
  match c.interval.lower.parameter?, c.interval.upper.parameter? with
  | some a, some b => if a < b then [a, b] else if b < a then [b, a] else [a]
  | some a, none => [a]
  | none, some b => [b]
  | none, none => []

end RangeConstraint

end QueryAnalysis
