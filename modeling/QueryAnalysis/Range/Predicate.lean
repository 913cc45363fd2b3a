import QueryAnalysis.Error
import QueryAnalysis.Range.Builder

/-!
# Ranges from predicates

`RangePolicy.analyze` finds out whether a predicate restricts a single column to one interval, as
`a = 1`, `1 <= a`, `a IS NULL`, `a IS NOT DISTINCT FROM ?0` or `a > 1 AND a < 10` do.

Each conjunct gives a `Term` on one column, or the predicate is given up. The terms narrow one
interval: of two endpoints on one side the tighter one stays (`tighter?`). Three things make the
result empty: a comparison with null, which is never true; a conjunct that wants null beside one
that rejects it; and endpoints that have crossed.
-/

namespace QueryAnalysis

/-! ### Terms -/

/-- What one conjunct asks of its column. -/
inductive Term where
  | lower (coordinate : Coordinate) (strictness : Strictness)
  | upper (coordinate : Coordinate) (strictness : Strictness)
  /-- One value; if it is null, a null-safe point matches it. -/
  | point (coordinate : Coordinate) (nullSafe : Bool)
  /-- A comparison with null, which is never true. -/
  | contradiction
deriving DecidableEq

namespace Term

/-- Whether the term is not true of null. -/
def rejectsNull : Term → Bool
  | point _ nullSafe => !nullSafe
  | _ => true

/-- Whether the term is true of null alone. -/
def requiresNull : Term → Bool
  | point coordinate _ => coordinate.isNull
  | _ => false

/-- Whether the term is a null-safe comparison with a parameter, which may turn out to be null. -/
def mayMatchNull : Term → Bool
  | point (.parameter _) nullSafe => nullSafe
  | _ => false

/-- The term for `column op coordinate`. -/
def ofComparison? (op : BinaryOperator) (coordinate : Coordinate) : Option Term :=
  match op with
  | .isNotDistinctFrom => some (point coordinate true)
  | .neq => none
  | .and => none
  | .or => none
  | .eq => some (if coordinate.isNull then contradiction else point coordinate false)
  | .lt => some (if coordinate.isNull then contradiction else upper coordinate .opened)
  | .lte => some (if coordinate.isNull then contradiction else upper coordinate .closed)
  | .gt => some (if coordinate.isNull then contradiction else lower coordinate .opened)
  | .gte => some (if coordinate.isNull then contradiction else lower coordinate .closed)

end Term

/-- The coordinate that an expression without columns stands for. -/
def Scalar.coordinate? : Scalar → Option Coordinate
  | literal value => some (.literal value)
  | parameter index => some (.parameter index)
  | _ => none

/-- The column and the term of a conjunct. A comparison is read with its column on the left; a
comparison of two columns has no term. -/
def Scalar.term? : Scalar → Option (Nat × Term)
  | isNull (column ordinal) => some (ordinal, .point (.literal .null) true)
  | binary (column ordinal) op value => do
    let coordinate ← value.coordinate?
    let term ← Term.ofComparison? op coordinate
    some (ordinal, term)
  | binary value op (column ordinal) => do
    let coordinate ← value.coordinate?
    let term ← Term.ofComparison? op.reverse coordinate
    some (ordinal, term)
  | _ => none

/-- The terms of all conjuncts of a predicate, if they are on one column. -/
def Scalar.terms? (predicate : Scalar) : Option (Nat × List Term) := do
  let found ← predicate.conjuncts.mapM Scalar.term?
  let (ordinal, _) ← found.head?
  if found.all fun (other, _) => other == ordinal then
    some (ordinal, found.map fun (_, term) => term)
  else none

/-! ### Narrowing -/

/-- The tighter of two endpoints on one side: `wins` is how the tighter one compares with the
other. Unknown if the two cannot be compared. -/
def tighter? (wins : Ordering) (current candidate : Endpoint) : Option Endpoint :=
  (candidate.compare? current).map fun order => if order = wins then candidate else current

namespace Interval

/-- The interval with a lower endpoint at least as tight as `candidate`. -/
def narrowLower? (i : Interval) (candidate : Endpoint) : Option Interval :=
  (tighter? .gt i.lower candidate).map fun lower => ⟨lower, i.upper⟩

/-- The interval with an upper endpoint at least as tight as `candidate`. -/
def narrowUpper? (i : Interval) (candidate : Endpoint) : Option Interval :=
  (tighter? .lt i.upper candidate).map fun upper => ⟨i.lower, upper⟩

end Interval

/-- Narrows an interval by a term, the term's endpoints being those that the policy gives. -/
def RangePolicy.narrow? (policy : RangePolicy) (domain : Domain) (i : Interval) :
    Term → Option Interval
  | .lower coordinate strictness =>
    i.narrowLower? (policy.endpoint domain .lower strictness coordinate)
  | .upper coordinate strictness =>
    i.narrowUpper? (policy.endpoint domain .upper strictness coordinate)
  | .point coordinate _ => do
    let j ← i.narrowLower? (policy.endpoint domain .lower .closed coordinate)
    j.narrowUpper? (policy.endpoint domain .upper .closed coordinate)
  | .contradiction => some i

/-! ### Analysis -/

/-- A column and the range to which a predicate restricts it. -/
structure ColumnRange where
  column : Nat
  constraint : RangeConstraint
deriving DecidableEq

/-- Whether the terms cannot all be true, whatever their coordinates are. -/
def contradictory (terms : List Term) : Bool :=
  terms.any (fun term => decide (term = .contradiction))
    || (terms.any Term.rejectsNull && terms.any Term.requiresNull)

/-- The common coordinate of two closed finite endpoints. -/
def Interval.pointCoordinate? (i : Interval) : Option Coordinate :=
  match i.lower, i.upper with
  | .finite _ .closed coordinate, .finite _ .closed _ =>
    if i.lower.compare? i.upper = some .eq then some coordinate else none
  | _, _ => none

/-- The builder narrowed to an interval: to nothing if its endpoints have crossed, and to a point
if they are at one place. -/
def RangeBuilder.narrowedTo (b : RangeBuilder) (i : Interval) : RangeBuilder :=
  if i.isEmpty ∨ i.lower.compare? i.upper = some .gt then b.apply .empty
  else match i.pointCoordinate? with
    | some coordinate => b.setPoint coordinate
    | none => { b with interval := i }

/-- The range of the values for which all terms hold, if their endpoints can be compared. A
null-safe comparison with a parameter makes null match itself. -/
def RangePolicy.constraint? (policy : RangePolicy) (domain : Domain) (terms : List Term) :
    Option RangeConstraint :=
  let semantics :=
    if terms.any Term.mayMatchNull then .matchesNull else policy.semantics
  let builder := policy.builderWith domain semantics
  if contradictory terms then some (builder.apply .empty).build
  else do
    let i ← terms.foldlM (policy.narrow? domain) .unconstrained
    some (builder.narrowedTo i).build

/-- The column that a predicate restricts to one range. There is none if some conjunct is not a
comparison of a column with a value, if the conjuncts are on different columns, or if endpoints
cannot be compared. A predicate on one column that the row does not have is an error. -/
def RangePolicy.analyze (policy : RangePolicy) (schema : Schema) (predicate : Scalar) :
    Except Error (Option ColumnRange) :=
  match predicate.terms? with
  | none => .ok none
  | some (column, terms) =>
    match schema[column]? with
    | none => .error (.columnOutOfRow column schema.length)
    | some field =>
      .ok ((policy.constraint? field.domain terms).map fun constraint => ⟨column, constraint⟩)

end QueryAnalysis
