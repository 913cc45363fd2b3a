import QueryAnalysis.Scalar
import QueryAnalysis.Schema

/-!
# Logical plans

A `Plan` is a tree of relational operators. An analysis sees an operator through its kind, its
schema and its inputs, and the kinds form a hierarchy: `OperatorKind.lineage` leads from a kind to
the root that stands for every operator, so that a rule registered for a kind serves the kinds
below it too.

`Plan.fold` is the one recursion over plans. An analysis says what it makes of an operator and of
the results for its inputs, and `Plan.fold_eq` unfolds it without a case per operator.
-/

namespace QueryAnalysis

/-! ### Kinds of operators -/

/-- What kind of operator stands at a place in a plan. -/
inductive OperatorKind where
  /-- The root of the hierarchy: any operator. -/
  | rel
  | scan
  | values
  | filter
  | project
  | aggregate
  | sort
  | limit
  | join
  | semiJoin
  | correlate
  | union
  /-- An operator defined elsewhere, by its name. -/
  | extension (name : String)
deriving DecidableEq

namespace OperatorKind

/-- The next more general kind: semi-joins and correlations are joins, all else is just an
operator. -/
def parent? : OperatorKind → Option OperatorKind
  | rel => none
  | semiJoin | correlate => some join
  | _ => some rel

/-- A kind and those above it, the most specific first. -/
def lineage : OperatorKind → List OperatorKind
  | rel => [rel]
  | semiJoin => [semiJoin, join, rel]
  | correlate => [correlate, join, rel]
  | kind => [kind, rel]

/-- The lineage is what following the parents gives. -/
theorem lineage_eq (kind : OperatorKind) :
    kind.lineage = kind :: (kind.parent?.map lineage).getD [] := by
  cases kind <;> rfl

/-- The kinds that are not extensions, the root first. -/
def builtin : List OperatorKind :=
  [rel, scan, values, filter, project, aggregate, sort, limit, join, semiJoin, correlate, union]

/-- A kind as it is printed. -/
def text : OperatorKind → String
  | rel => "Rel"
  | scan => "Scan"
  | values => "Values"
  | filter => "Filter"
  | project => "Project"
  | aggregate => "Aggregate"
  | sort => "Sort"
  | limit => "Limit"
  | join => "Join"
  | semiJoin => "SemiJoin"
  | correlate => "Correlate"
  | union => "Union"
  | extension name => "Extension(" ++ name ++ ")"

/-- The kind with a given printed name, extensions apart. -/
def ofName? (s : String) : Option OperatorKind :=
  builtin.find? fun kind => kind.text == s

end OperatorKind

/-! ### Plans -/

/-- A relational operator with its inputs. -/
inductive Plan where
  /-- The rows of a table; `keys` are the unique keys that the catalog declares. -/
  | scan (table : String) (schema : Schema) (keys : List ColumnSet)
  /-- Rows written in the statement itself. -/
  | values (schema : Schema) (rows : List (List Literal))
  /-- The input's rows for which a condition holds. -/
  | filter (input : Plan) (condition : Scalar)
  /-- One column per expression over the input's row. -/
  | project (input : Plan) (columns : List Scalar) (schema : Schema)
  /-- One row per group: the grouping columns in ascending order, then the aggregates. -/
  | aggregate (input : Plan) (group : ColumnSet) (aggregates : List Scalar) (schema : Schema)
  /-- The input's rows in another order. -/
  | sort (input : Plan) (criteria : List Scalar)
  /-- So many of the input's rows, after leaving out `skipped` rows. -/
  | limit (input : Plan) (count skipped : Nat)
  /-- Pairs of rows for which a condition over the concatenated row holds. -/
  | join (left right : Plan) (kind : JoinKind) (condition : Scalar) (schema : Schema)
  /-- The left rows that have a match on the right. -/
  | semiJoin (left right : Plan) (condition : Scalar)
  /-- Each left row with the rows that the right input gives for it, the left row being bound to
  `binding`. -/
  | correlate (left right : Plan) (kind : JoinKind) (binding : Nat) (schema : Schema)
  /-- The rows of all inputs, with or without duplicates. -/
  | union (inputs : List Plan) (all : Bool) (schema : Schema)
  /-- An operator defined elsewhere. -/
  | extension (name : String) (schema : Schema) (inputs : List Plan)

namespace Plan

/-- The kind of the operator at the root. -/
def kind : Plan → OperatorKind
  | scan .. => .scan
  | values .. => .values
  | filter .. => .filter
  | project .. => .project
  | aggregate .. => .aggregate
  | sort .. => .sort
  | limit .. => .limit
  | join .. => .join
  | semiJoin .. => .semiJoin
  | correlate .. => .correlate
  | union .. => .union
  | extension name .. => .extension name

/-- The columns of the rows that the plan yields. -/
def schema : Plan → Schema
  | scan _ schema _ => schema
  | values schema _ => schema
  | filter input _ => input.schema
  | project _ _ schema => schema
  | aggregate _ _ _ schema => schema
  | sort input _ => input.schema
  | limit input _ _ => input.schema
  | join _ _ _ _ schema => schema
  | semiJoin left _ _ => left.schema
  | correlate _ _ _ _ schema => schema
  | union _ _ schema => schema
  | extension _ schema _ => schema

/-- The number of columns of the rows that the plan yields. -/
def width (plan : Plan) : Nat :=
  plan.schema.length

/-- The operators directly below the root, in order. -/
def inputs : Plan → List Plan
  | scan .. => []
  | values .. => []
  | filter input _ => [input]
  | project input _ _ => [input]
  | aggregate input _ _ _ => [input]
  | sort input _ => [input]
  | limit input _ _ => [input]
  | join left right _ _ _ => [left, right]
  | semiJoin left right _ => [left, right]
  | correlate left right _ _ _ => [left, right]
  | union inputs _ _ => inputs
  | extension _ _ inputs => inputs

/-! ### Induction and recursion over plans -/

theorem sizeOf_lt_of_mem_inputs {input plan : Plan} (h : input ∈ plan.inputs) :
    sizeOf input < sizeOf plan := by
  cases plan with
  | scan | values => exact absurd h List.not_mem_nil
  | filter | project | aggregate | sort | limit =>
    rw [List.mem_singleton.mp h]
    simp +arith
  | join | semiJoin | correlate =>
    simp only [inputs, List.mem_cons, List.not_mem_nil, or_false] at h
    rcases h with rfl | rfl <;> simp +arith
  | union inputs =>
    have := List.sizeOf_lt_of_mem (show input ∈ inputs from h)
    simp only [union.sizeOf_spec]
    omega
  | extension _ _ inputs =>
    have := List.sizeOf_lt_of_mem (show input ∈ inputs from h)
    simp only [extension.sizeOf_spec]
    omega

/-- What holds of an operator whenever it holds of its inputs holds of every plan. -/
@[elab_as_elim]
theorem induction_on_inputs {motive : Plan → Prop}
    (step : ∀ plan, (∀ input ∈ plan.inputs, motive input) → motive plan) (plan : Plan) :
    motive plan :=
  step plan fun input _ => induction_on_inputs step input
termination_by sizeOf plan
decreasing_by exact sizeOf_lt_of_mem_inputs ‹_›

section Fold

variable {α : Type} (f : Plan → List α → α)

mutual

/-- Computes a result for a plan from the results for its inputs. -/
def fold : Plan → α
  | plan@(scan ..) => f plan []
  | plan@(values ..) => f plan []
  | plan@(filter input _) => f plan [fold input]
  | plan@(project input _ _) => f plan [fold input]
  | plan@(aggregate input _ _ _) => f plan [fold input]
  | plan@(sort input _) => f plan [fold input]
  | plan@(limit input _ _) => f plan [fold input]
  | plan@(join left right _ _ _) => f plan [fold left, fold right]
  | plan@(semiJoin left right _) => f plan [fold left, fold right]
  | plan@(correlate left right _ _ _) => f plan [fold left, fold right]
  | plan@(union inputs _ _) => f plan (foldAll inputs)
  | plan@(extension _ _ inputs) => f plan (foldAll inputs)

/-- Computes a result for each of several plans. -/
def foldAll : List Plan → List α
  | [] => []
  | plan :: plans => fold plan :: foldAll plans

end

theorem foldAll_eq_map (plans : List Plan) : foldAll f plans = plans.map (fold f) := by
  induction plans with
  | nil => simp [foldAll]
  | cons plan plans ih => simp [foldAll, ih]

/-- The result for a plan is made of the results for its inputs. -/
theorem fold_eq (plan : Plan) : fold f plan = f plan (plan.inputs.map (fold f)) := by
  cases plan <;> simp [fold, inputs, foldAll_eq_map]

end Fold

end Plan

end QueryAnalysis
