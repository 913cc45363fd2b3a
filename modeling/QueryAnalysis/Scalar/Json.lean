import QueryAnalysis.Json
import QueryAnalysis.Scalar

/-!
# The JSON form of expressions

An expression is written as an object with one field, named for the kind of expression
(`Scalar.toJson`). `Scalar.ofJson?` reads that form back. It accepts more than is written: the
fields of a kind may stand in any order with others among them, or without their names as an array
in the order in which they are written; an integer serves as a double, and a name without content
may stand as a field with null. Missing fields and values of another type are refused.

`Scalar.ofDocument?` reads an expression that comes from elsewhere, and bounds its nesting. What is
passed over may be nested as deep as it likes.
-/

namespace QueryAnalysis

/-! ### Writing -/

/-- A literal in JSON. -/
def Literal.toJson : Literal → Json
  | null => .string "Null"
  | boolean value => .object [("Boolean", .bool value)]
  | int value => .object [("Int", .int value.toInt)]
  | float value => .object [("Float", .float value)]
  | string value => .object [("String", .string value)]

namespace Scalar

mutual

/-- An expression in JSON. -/
def toJson : Scalar → Json
  | column ordinal => .object [("InputRef", .int ordinal)]
  | literal value => .object [("Literal", value.toJson)]
  | parameter index => .object [("DynamicParam", .object [("index", .int index)])]
  | binary left op right =>
    .object [("BinaryOp", .object
      [("left", left.toJson), ("op", .string op.name), ("right", right.toJson)])]
  | isNull operand =>
    .object [("UnaryOp", .object [("op", .string "IsNull"), ("expr", operand.toJson)])]
  | aggregate function args distinct =>
    .object [("AggFunc", .object
      [("func", .string function.name), ("args", .array (toJsonAll args)),
        ("distinct", .bool distinct)])]
  | call name args =>
    .object [("Function", .object [("name", .string name), ("args", .array (toJsonAll args))])]

/-- Several expressions in JSON. -/
def toJsonAll : List Scalar → List Json
  | [] => []
  | arg :: args => arg.toJson :: toJsonAll args

end

end Scalar

/-! ### Reading -/

/-- A name that stands alone: as a string, or as a field with null. -/
def Json.name? : Json → Option String
  | .string name => some name
  | .object [(name, .null)] => some name
  | _ => none

/-- The literal that a JSON value is the form of. -/
def Literal.ofJson? : Json → Option Literal
  | .object [("Boolean", value)] => value.bool?.map boolean
  | .object [("Int", value)] => value.int64?.map int
  | .object [("Float", value)] => value.double?.map float
  | .object [("String", value)] => value.string?.map string
  | other => if other.name? = some "Null" then some null else none

/-- The index of a parameter: in a field, or as the only element of a list. -/
def Json.parameterIndex? : Json → Option Nat
  | .array [index] => index.ordinal?
  | .object fields => (fields.lookup "index").bind Json.ordinal?
  | _ => none

namespace Scalar

mutual

/-- The expression that a JSON value is the form of. -/
def ofJson? : Json → Option Scalar
  | .object [("InputRef", value)] => value.ordinal?.map column
  | .object [("Literal", value)] => (Literal.ofJson? value).map literal
  | .object [("DynamicParam", value)] => value.parameterIndex?.map parameter
  | .object [("BinaryOp", .object fields)] => do
    let operands := scalarFields fields
    let left ← (operands.lookup "left").bind id
    let op ← ((fields.lookup "op").bind Json.name?).bind BinaryOperator.ofName?
    let right ← (operands.lookup "right").bind id
    some (binary left op right)
  | .object [("BinaryOp", .array [left, op, right])] => do
    let left ← ofJson? left
    let op ← op.name?.bind BinaryOperator.ofName?
    let right ← ofJson? right
    some (binary left op right)
  | .object [("UnaryOp", .object fields)] => do
    let operands := scalarFields fields
    let op ← (fields.lookup "op").bind Json.name?
    let operand ← (operands.lookup "expr").bind id
    if op = "IsNull" then some (isNull operand) else none
  | .object [("UnaryOp", .array [op, operand])] => do
    let op ← op.name?
    let operand ← ofJson? operand
    if op = "IsNull" then some (isNull operand) else none
  | .object [("AggFunc", .object fields)] => do
    let lists := argumentFields fields
    let function ← ((fields.lookup "func").bind Json.name?).bind AggregateFunction.ofName?
    let args ← (lists.lookup "args").bind id
    let distinct ← (fields.lookup "distinct").bind Json.bool?
    some (aggregate function args distinct)
  | .object [("AggFunc", .array [function, .array args, distinct])] => do
    let function ← function.name?.bind AggregateFunction.ofName?
    let args ← ofJsonAll? args
    let distinct ← distinct.bool?
    some (aggregate function args distinct)
  | .object [("Function", .object fields)] => do
    let lists := argumentFields fields
    let name ← (fields.lookup "name").bind Json.string?
    let args ← (lists.lookup "args").bind id
    some (call name args)
  | .object [("Function", .array [name, .array args])] => do
    let name ← name.string?
    let args ← ofJsonAll? args
    some (call name args)
  | _ => none

/-- The expressions that all the values are forms of. -/
def ofJsonAll? : List Json → Option (List Scalar)
  | [] => some []
  | value :: values => do
    let arg ← ofJson? value
    let args ← ofJsonAll? values
    some (arg :: args)

/-- The fields of an object read as expressions, where they are some. -/
def scalarFields : List (String × Json) → List (String × Option Scalar)
  | [] => []
  | (name, value) :: fields => (name, ofJson? value) :: scalarFields fields

/-- The fields of an object read as lists of expressions, where they are some. -/
def argumentFields : List (String × Json) → List (String × Option (List Scalar))
  | [] => []
  | (name, .array values) :: fields => (name, ofJsonAll? values) :: argumentFields fields
  | (name, _) :: fields => (name, none) :: argumentFields fields

end

/-! ### Nesting -/

/-- Whether a field in the content of a kind is read. The others are passed over. -/
def readsField (kind name : String) : Bool :=
  match kind with
  | "DynamicParam" => name == "index"
  | "BinaryOp" => ["left", "op", "right"].contains name
  | "UnaryOp" => ["op", "expr"].contains name
  | "AggFunc" => ["func", "args", "distinct"].contains name
  | "Function" => ["name", "args"].contains name
  | _ => true

mutual

/-- How deep the arrays and objects stand in each other that are entered to read an expression. -/
def readDepth : Json → Nat
  | .array elements => readDepthOfElements elements + 1
  | .object [(_, .array elements)] => readDepthOfElements elements + 2
  | .object [(kind, .object fields)] => readDepthOfFields kind fields + 2
  | .object _ => 1
  | _ => 0

/-- The greatest such depth of several values. -/
def readDepthOfElements : List Json → Nat
  | [] => 0
  | element :: elements => max (readDepth element) (readDepthOfElements elements)

/-- The greatest such depth of the fields of a kind. -/
def readDepthOfFields (kind : String) : List (String × Json) → Nat
  | [] => 0
  | (name, value) :: fields =>
    max (if readsField kind name then readDepth value else 0) (readDepthOfFields kind fields)

end

/-- The depth at which an expression in a document is refused. -/
def nestingLimit : Nat := 128

/-- The expression that a document holds, if what has to be read is nested less deep than the
limit. -/
def ofDocument? (document : Json) : Option Scalar :=
  if readDepth document < nestingLimit then ofJson? document else none

end Scalar

end QueryAnalysis
