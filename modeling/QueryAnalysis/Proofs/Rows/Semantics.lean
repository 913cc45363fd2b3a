import Mathlib.Data.List.Forall2
import Mathlib.Data.List.Perm.Subperm
import QueryAnalysis.Plan

/-!
# The rows that a plan yields

A row is a list of values and a bag is a list of rows, in any order and with repetitions. What a
plan computes is left open as far as the analyses may rely on it: `Plan.Yields db plan rows` says
that `rows` is a possible output of `plan` over the database `db`. A filter may drop any rows, a
computed column may hold any value, and a limit, a union or an operator defined elsewhere may yield
any bag at all. Scans, projections, groupings and joins are pinned down.

A `Database` fixes the tables and the meaning of conditions. Of the latter only two things are
known: a conjunction is true only if both of its sides are, and an equality of two columns is true
only if both hold the same value and that value is not null.
-/

namespace QueryAnalysis

variable {α : Type}

/-! ### Rows and databases -/

/-- The values of a row, by column. -/
abbrev Row (α : Type) := List α

/-- Rows in some order, with repetitions. -/
abbrev Bag (α : Type) := List (Row α)

/-- The contents of the tables and the meaning of conditions. -/
structure Database (α : Type) where
  /-- The value that a literal stands for. -/
  value : Literal → α
  /-- The rows of a table. -/
  table : String → Bag α
  /-- Whether a condition is true of a row. -/
  isTrue : Scalar → Row α → Bool
  /-- A conjunction is true only if both of its sides are. -/
  isTrue_and : ∀ {left right : Scalar} {row : Row α},
    isTrue (.binary left .and right) row = true → isTrue left row = true ∧ isTrue right row = true
  /-- An equality of columns is true only if both hold the same value, and not null. -/
  isTrue_eq : ∀ {i j : Nat} {row : Row α}, isTrue (.binary (.column i) .eq (.column j)) row = true →
    ∃ v, v ≠ value .null ∧ row[i]? = some v ∧ row[j]? = some v

namespace Database

variable (db : Database α)

/-- The null value. -/
def null : α :=
  db.value .null

/-- The row of nulls that stands for the missing row of a side. -/
def blank (width : Nat) : Row α :=
  List.replicate width db.null

@[simp] theorem length_blank (width : Nat) : (db.blank width).length = width :=
  List.length_replicate

/-- The right rows that a left row meets under a condition. -/
def matchesOf (condition : Scalar) (right : Bag α) (l : Row α) : Bag α :=
  right.filter fun r => db.isTrue condition (l ++ r)

/-- A left row with each of the right rows that belong to it, or with nulls if there are none and
the join keeps unmatched left rows. -/
def extend (kind : JoinKind) (rightWidth : Nat) (l : Row α) (matching : Bag α) : Bag α :=
  if matching.isEmpty && kind.padsRight then [l ++ db.blank rightWidth]
  else matching.map fun r => l ++ r

/-- The right rows that no left row meets, with nulls on the left if the join keeps them. -/
def unmatchedRight (kind : JoinKind) (condition : Scalar) (leftWidth : Nat) (left right : Bag α) :
    Bag α :=
  if kind.padsLeft then
    (right.filter fun r => left.all fun l => !db.isTrue condition (l ++ r)).map
      fun r => db.blank leftWidth ++ r
  else []

/-- The rows of a join. -/
def joinRows (kind : JoinKind) (condition : Scalar) (leftWidth rightWidth : Nat)
    (left right : Bag α) : Bag α :=
  (left.flatMap fun l => db.extend kind rightWidth l (db.matchesOf condition right l))
    ++ db.unmatchedRight kind condition leftWidth left right

end Database

/-! ### Projected and grouped rows -/

/-- An output row of a projection: a column reference yields that column of the input row, any other
expression yields any value. -/
structure Row.ProjectsTo (columns : List Scalar) (row out : Row α) : Prop where
  length : out.length = columns.length
  column : ∀ {j i : Nat}, columns[j]? = some (.column i) → out[j]? = row[i]?

/-- What a row holds in the grouping columns, in ascending order of the columns. -/
def Row.groupOf (group : ColumnSet) (row : Row α) : List (Option α) :=
  group.toList.map fun i => row[i]?

/-- The first columns of a row. -/
def Row.leading (count : Nat) (row : Row α) : List (Option α) :=
  (List.range count).map fun i => row[i]?

/-- The output of a grouping has one row for each combination of values in the grouping columns of
the input, and that combination comes first in it. Nulls are equal here. -/
structure Bag.GroupsTo (group : ColumnSet) (rows out : Bag α) : Prop where
  nodup : (out.map (Row.leading group.size)).Nodup
  mem_iff : ∀ combination,
    combination ∈ out.map (Row.leading group.size) ↔ combination ∈ rows.map (Row.groupOf group)

/-! ### Plans -/

/-- Every row is as wide as a schema says. -/
def Bag.Fits (schema : Schema) (rows : Bag α) : Prop :=
  ∀ row ∈ rows, row.length = schema.length

instance (schema : Schema) (rows : Bag α) : Decidable (Bag.Fits schema rows) :=
  inferInstanceAs (Decidable (∀ row ∈ rows, row.length = schema.length))

/-- The bags that a plan may yield over a database. -/
inductive Plan.Yields (db : Database α) : Plan → Bag α → Prop
  /-- The rows of the table. -/
  | scan {table : String} {schema : Schema} {keys : List ColumnSet} :
      Bag.Fits schema (db.table table) →
      Yields db (.scan table schema keys) (db.table table)
  /-- The rows of the statement. -/
  | values {schema : Schema} {rows : List (List Literal)} :
      Bag.Fits schema (rows.map fun row => row.map db.value) →
      Yields db (.values schema rows) (rows.map fun row => row.map db.value)
  /-- Some of the input's rows. -/
  | filter {input : Plan} {condition : Scalar} {rows out : Bag α} :
      Yields db input rows → out.Subperm rows → Yields db (.filter input condition) out
  /-- One row for each of the input's rows. -/
  | project {input : Plan} {columns : List Scalar} {schema : Schema} {rows out : Bag α} :
      Yields db input rows → List.Forall₂ (Row.ProjectsTo columns) rows out →
      Bag.Fits schema out → Yields db (.project input columns schema) out
  /-- One row for each group. -/
  | aggregate {input : Plan} {group : ColumnSet} {aggregates : List Scalar} {schema : Schema}
      {rows out : Bag α} :
      group ≠ .empty → Yields db input rows → Bag.GroupsTo group rows out → Bag.Fits schema out →
      Yields db (.aggregate input group aggregates schema) out
  /-- Anything, for an aggregate over all rows. -/
  | aggregateAll {input : Plan} {aggregates : List Scalar} {schema : Schema} {out : Bag α} :
      Bag.Fits schema out → Yields db (.aggregate input .empty aggregates schema) out
  /-- The input's rows in some order. -/
  | sort {input : Plan} {criteria : List Scalar} {rows out : Bag α} :
      Yields db input rows → out.Perm rows → Yields db (.sort input criteria) out
  /-- Anything. -/
  | limit {input : Plan} {count skipped : Nat} {out : Bag α} :
      Bag.Fits input.schema out → Yields db (.limit input count skipped) out
  /-- The pairs that meet the condition, and the unmatched rows that the kind of join keeps. -/
  | join {left right : Plan} {kind : JoinKind} {condition : Scalar} {schema : Schema}
      {ls rs out : Bag α} :
      Yields db left ls → Yields db right rs →
      out.Perm (db.joinRows kind condition left.width right.width ls rs) → Bag.Fits schema out →
      Yields db (.join left right kind condition schema) out
  /-- Some of the left input's rows. -/
  | semiJoin {left right : Plan} {condition : Scalar} {ls out : Bag α} :
      Yields db left ls → out.Subperm ls → Yields db (.semiJoin left right condition) out
  /-- Each left row with whatever rows the right input gives for it. -/
  | correlate {left right : Plan} {kind : JoinKind} {binding : Nat} {schema : Schema}
      {ls out : Bag α} {answers : Row α → Bag α} :
      kind.padsLeft = false → Yields db left ls →
      out.Perm (ls.flatMap fun l => db.extend kind right.width l (answers l)) →
      Bag.Fits schema out → Yields db (.correlate left right kind binding schema) out
  /-- Anything. -/
  | union {inputs : List Plan} {all : Bool} {schema : Schema} {out : Bag α} :
      Bag.Fits schema out → Yields db (.union inputs all schema) out
  /-- Anything. -/
  | extension {name : String} {schema : Schema} {inputs : List Plan} {out : Bag α} :
      Bag.Fits schema out → Yields db (.extension name schema inputs) out

/-- The rows that a plan yields are as wide as its schema. -/
theorem Plan.Yields.fits {db : Database α} {plan : Plan} {rows : Bag α} (h : plan.Yields db rows) :
    Bag.Fits plan.schema rows := by
  induction h with
  | scan hfits | values hfits | aggregateAll hfits | limit hfits | union hfits | extension hfits =>
      exact hfits
  | project _ _ hfits | aggregate _ _ _ hfits | join _ _ _ hfits | correlate _ _ _ hfits =>
      exact hfits
  | filter _ hsub ih | semiJoin _ hsub ih => exact fun row hrow => ih row (hsub.subset hrow)
  | sort _ hperm ih => exact fun row hrow => ih row (hperm.subset hrow)

/-! ### The operators of a plan -/

/-- Every operator of a plan, the root first. -/
def Plan.operators : Plan → List Plan :=
  Plan.fold fun plan below => plan :: below.flatten

theorem Plan.mem_operators {plan operator : Plan} :
    operator ∈ plan.operators ↔
      operator = plan ∨ ∃ input ∈ plan.inputs, operator ∈ input.operators := by
  rw [operators, fold_eq]
  simp

theorem Plan.mem_operators_self (plan : Plan) : plan ∈ plan.operators :=
  mem_operators.mpr (.inl rfl)

/-- What stands in an input stands in the plan. -/
theorem Plan.mem_operators_of_input {plan input operator : Plan} (hinput : input ∈ plan.inputs)
    (h : operator ∈ input.operators) : operator ∈ plan.operators :=
  mem_operators.mpr (.inr ⟨input, hinput, h⟩)

end QueryAnalysis
