import QueryAnalysis.Columns
import QueryAnalysis.Literal

/-!
# Scalar expressions

`Scalar` is an expression over one row: the condition of a filter or a join, an output column of a
projection, an aggregate. Two views of it are used by the analyses: the columns it reads
(`Scalar.columns`) and, for a condition, the list of conditions that it is the conjunction of
(`Scalar.conjuncts`).
-/

namespace QueryAnalysis

/-- The operators with two operands. -/
inductive BinaryOperator where
  | eq
  | neq
  | lt
  | lte
  | gt
  | gte
  /-- Equality for which null is an ordinary value. -/
  | isNotDistinctFrom
  | and
  | or
deriving DecidableEq

namespace BinaryOperator

/-- The operator that gives the same result with its operands exchanged: `a < b` is `b > a`. -/
def reverse : BinaryOperator → BinaryOperator
  | lt => gt
  | lte => gte
  | gt => lt
  | gte => lte
  | op => op

/-- Whether the operator compares two values. -/
def isComparison : BinaryOperator → Bool
  | and | or => false
  | _ => true

@[simp] theorem reverse_reverse (op : BinaryOperator) : op.reverse.reverse = op := by
  cases op <;> rfl

@[simp] theorem isComparison_reverse (op : BinaryOperator) :
    op.reverse.isComparison = op.isComparison := by
  cases op <;> rfl

/-- Every operator. -/
def all : List BinaryOperator :=
  [eq, neq, lt, lte, gt, gte, isNotDistinctFrom, and, or]

/-- The operator's name in the JSON form of an expression. -/
def name : BinaryOperator → String
  | eq => "Eq"
  | neq => "Neq"
  | lt => "Lt"
  | lte => "Lte"
  | gt => "Gt"
  | gte => "Gte"
  | isNotDistinctFrom => "IsNotDistinctFrom"
  | and => "And"
  | or => "Or"

/-- The operator with a given name. -/
def ofName? (s : String) : Option BinaryOperator :=
  all.find? fun op => op.name == s

@[simp] theorem ofName?_name (op : BinaryOperator) : ofName? op.name = some op := by
  cases op <;> rfl

end BinaryOperator

/-- The aggregate functions. -/
inductive AggregateFunction where
  | count
  | sum
  | avg
  | min
  | max
deriving DecidableEq

namespace AggregateFunction

/-- Every aggregate function. -/
def all : List AggregateFunction :=
  [count, sum, avg, min, max]

/-- The function's name in the JSON form of an expression. -/
def name : AggregateFunction → String
  | count => "Count"
  | sum => "Sum"
  | avg => "Avg"
  | min => "Min"
  | max => "Max"

/-- The aggregate function with a given name. -/
def ofName? (s : String) : Option AggregateFunction :=
  all.find? fun f => f.name == s

@[simp] theorem ofName?_name (f : AggregateFunction) : ofName? f.name = some f := by
  cases f <;> rfl

end AggregateFunction

/-- An expression over the columns of a row. -/
inductive Scalar where
  /-- The value of a column. -/
  | column (ordinal : Nat)
  | literal (value : Literal)
  /-- A value that is supplied when the statement is executed. -/
  | parameter (index : Nat)
  | binary (left : Scalar) (op : BinaryOperator) (right : Scalar)
  | isNull (operand : Scalar)
  | aggregate (function : AggregateFunction) (args : List Scalar) (distinct : Bool)
  | call (name : String) (args : List Scalar)

namespace Scalar

mutual

/-- The columns that an expression reads. -/
def columns : Scalar → ColumnSet
  | column ordinal => ColumnSet.singleton ordinal
  | literal _ => .empty
  | parameter _ => .empty
  | binary left _ right => left.columns.union right.columns
  | isNull operand => operand.columns
  | aggregate _ args _ => columnsOfAll args
  | call _ args => columnsOfAll args

/-- The columns that any of the expressions reads. -/
def columnsOfAll : List Scalar → ColumnSet
  | [] => .empty
  | arg :: args => arg.columns.union (columnsOfAll args)

end

/-- The conditions that must all hold for a condition to hold: it is taken apart at the
conjunctions at its top, from left to right. -/
def conjuncts : Scalar → List Scalar
  | binary left .and right => left.conjuncts ++ right.conjuncts
  | other => [other]

/-- The condition that always holds. -/
def always : Scalar :=
  literal (.boolean true)

end Scalar

end QueryAnalysis
