import QueryAnalysis.Range.Constraint

/-!
# Building a range step by step

A `RangeBuilder` holds the interval found so far for a column. `RangeStep` is one change of it, as
a value, and `RangeBuilder.run` makes a list of changes in order. New coordinates are rounded to
the domain if the builder rounds. The null semantics changes in one case: a range that is narrowed
to the point null wants null to match itself.
-/

namespace QueryAnalysis

/-- An interval over a domain while it is being narrowed. -/
structure RangeBuilder where
  domain : Domain
  semantics : NullSemantics
  /-- Whether coordinates are rounded to the domain. -/
  rounds : Bool
  interval : Interval
deriving DecidableEq

/-- A change of the interval under construction. -/
inductive RangeStep where
  /-- Restricts the range to one value. -/
  | point (coordinate : Coordinate)
  /-- Restricts the range to null. -/
  | null
  | lower (coordinate : Coordinate) (strictness : Strictness)
  | upper (coordinate : Coordinate) (strictness : Strictness)
  | unsetLower
  | unsetUpper
  /-- Admits every value. -/
  | unconstrained
  /-- Admits no value. -/
  | empty
deriving DecidableEq

namespace RangeBuilder

/-- The builder of an unconstrained range. -/
def new (domain : Domain) (semantics : NullSemantics) (rounds : Bool) : RangeBuilder :=
  ⟨domain, semantics, rounds, .unconstrained⟩

/-- The endpoint at a coordinate over the builder's domain. -/
def endpoint (b : RangeBuilder) (role : Role) (strictness : Strictness) (coordinate : Coordinate) :
    Endpoint :=
  if b.rounds then .rounded b.domain role strictness coordinate
  else .finite role strictness coordinate

/-- Restricts the range to one value. At null, null is made to match itself unless it matches
anything already. -/
def setPoint (b : RangeBuilder) (coordinate : Coordinate) : RangeBuilder :=
  let semantics :=
    if coordinate.isNull && decide (b.semantics = .matchesNothing) then .matchesNull
    else b.semantics
  { b with
    semantics
    interval := ⟨b.endpoint .lower .closed coordinate, b.endpoint .upper .closed coordinate⟩ }

/-- Makes one change. -/
def apply (b : RangeBuilder) : RangeStep → RangeBuilder
  | .point coordinate => b.setPoint coordinate
  | .null => b.setPoint (.literal .null)
  | .lower coordinate strictness =>
    { b with interval := ⟨b.endpoint .lower strictness coordinate, b.interval.upper⟩ }
  | .upper coordinate strictness =>
    { b with interval := ⟨b.interval.lower, b.endpoint .upper strictness coordinate⟩ }
  | .unsetLower => { b with interval := ⟨.negInfinity, b.interval.upper⟩ }
  | .unsetUpper => { b with interval := ⟨b.interval.lower, .posInfinity⟩ }
  | .unconstrained => { b with interval := .unconstrained }
  | .empty => { b with interval := .empty }

/-- Makes changes in order. -/
def run (b : RangeBuilder) (steps : List RangeStep) : RangeBuilder :=
  steps.foldl apply b

/-- The finished constraint. -/
def build (b : RangeBuilder) : RangeConstraint :=
  ⟨b.domain, b.semantics, b.interval⟩

/-- The range so far as it is printed. -/
def text (b : RangeBuilder) : String :=
  rangeText b.semantics b.interval

@[simp] theorem run_nil (b : RangeBuilder) : b.run [] = b := rfl

@[simp] theorem run_cons (b : RangeBuilder) (step : RangeStep) (steps : List RangeStep) :
    b.run (step :: steps) = (b.apply step).run steps := rfl

end RangeBuilder

/-- The builder of an unconstrained range under a policy. -/
def RangePolicy.builder (policy : RangePolicy) (domain : Domain) : RangeBuilder :=
  .new domain policy.semantics policy.roundsIntegral

/-- The builder of an unconstrained range with a null semantics of its own. -/
def RangePolicy.builderWith (policy : RangePolicy) (domain : Domain) (semantics : NullSemantics) :
    RangeBuilder :=
  .new domain semantics policy.roundsIntegral

end QueryAnalysis
