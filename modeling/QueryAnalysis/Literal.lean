import QueryAnalysis.Number.Decimal

/-!
# Literal values

`Literal` is a value as it is written in a predicate or stored in a column: null, a truth value, a
64-bit integer, a double or a string. `Literal.compare?` orders literals of one family, with null
below everything, and answers nothing across families. An integer meets a double as the double
nearest to it, so the order of mixed numbers is the order after rounding, not that of the exact
values.
-/

namespace QueryAnalysis

/-- A value in a predicate or in a row. -/
inductive Literal where
  /-- The absent value. -/
  | null
  | boolean (value : Bool)
  | int (value : Int64)
  | float (value : Double)
  | string (value : String)
deriving DecidableEq

namespace Literal

/-- Whether the literal is null. -/
def isNull : Literal → Bool
  | null => true
  | _ => false

/-- The order of two literals: null first, then by value within a family. Without an answer for
different families, and where a double that is no number takes part. Strings are ordered by the
code points of their characters. -/
def compare? : Literal → Literal → Option Ordering
  | null, null => some .eq
  | null, _ => some .lt
  | _, null => some .gt
  | boolean a, boolean b => some (compare a b)
  | int a, int b => some (compare a.toInt b.toInt)
  | int a, float b => (Double.ofInt a.toInt).compare? b
  | float a, int b => a.compare? (Double.ofInt b.toInt)
  | float a, float b => a.compare? b
  | string a, string b => some (compare a b)
  | _, _ => none

/-- Whether two literals are the same value of the same family. Doubles are the same if they are
the same number. -/
def isSame : Literal → Literal → Bool
  | null, null => true
  | boolean a, boolean b => a == b
  | int a, int b => a == b
  | float a, float b => a.isSame b
  | string a, string b => a == b
  | _, _ => false

/-- A literal as it is printed: strings stand in single quotes, as they are. -/
def text : Literal → String
  | null => "null"
  | boolean value => if value then "true" else "false"
  | int value => toString value.toInt
  | float value => value.text
  | string value => "'" ++ value ++ "'"

end Literal

/-- A dynamic parameter as it is printed. -/
def parameterText (index : Nat) : String :=
  "?" ++ toString index

end QueryAnalysis
