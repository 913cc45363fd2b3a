/-!
# Row schemas

A `Schema` lists the columns of an operator's rows in order. `joinSchema` is the schema of the
concatenation of two rows, where a side that a join pads with nulls becomes nullable.
-/

namespace QueryAnalysis

/-- The type of a column's values. -/
inductive DataType where
  | null
  | boolean
  | int8
  | int16
  | int32
  | int64
  | uint8
  | uint16
  | uint32
  | uint64
  | float32
  | float64
  | utf8
  | binary
  | date32
  /-- Any other type, by its name. -/
  | other (name : String)
deriving DecidableEq

namespace DataType

/-- The types that have a name of their own here. -/
def named : List DataType :=
  [null, boolean, int8, int16, int32, int64, uint8, uint16, uint32, uint64, float32, float64, utf8,
    binary, date32]

/-- The type's name in a printed schema. -/
def name : DataType → String
  | null => "Null"
  | boolean => "Boolean"
  | int8 => "Int8"
  | int16 => "Int16"
  | int32 => "Int32"
  | int64 => "Int64"
  | uint8 => "UInt8"
  | uint16 => "UInt16"
  | uint32 => "UInt32"
  | uint64 => "UInt64"
  | float32 => "Float32"
  | float64 => "Float64"
  | utf8 => "Utf8"
  | binary => "Binary"
  | date32 => "Date32"
  | other name => name

/-- The type with a given name, among those that have one of their own. -/
def ofName? (s : String) : Option DataType :=
  named.find? fun t => t.name == s

/-- The least and the greatest value of a signed integer type. -/
def integralRange? : DataType → Option (Int × Int)
  | int8 => some (-128, 127)
  | int16 => some (-32768, 32767)
  | int32 => some (-2147483648, 2147483647)
  | int64 => some (-9223372036854775808, 9223372036854775807)
  | _ => none

end DataType

/-- A column of a schema. -/
structure Field where
  name : String
  type : DataType
  /-- Whether the column may hold null. -/
  nullable : Bool
deriving DecidableEq

/-- The columns of a row, in order. -/
abbrev Schema := List Field

/-- How many columns named by position, `c0`, `c1` and so on, all of them nullable integers. -/
def Schema.anonymous (width : Nat) : Schema :=
  (List.range width).map fun i => ⟨"c" ++ toString i, .int64, true⟩

/-- Which unmatched rows a join keeps. -/
inductive JoinKind where
  /-- Neither side's. -/
  | inner
  /-- The left side's. -/
  | left
  /-- The right side's. -/
  | right
  /-- Both sides'. -/
  | full
deriving DecidableEq

namespace JoinKind

/-- Whether unmatched right rows appear, with nulls in the left columns. -/
def padsLeft : JoinKind → Bool
  | right | full => true
  | inner | left => false

/-- Whether unmatched left rows appear, with nulls in the right columns. -/
def padsRight : JoinKind → Bool
  | left | full => true
  | inner | right => false

end JoinKind

/-- The columns of one side of a join, nullable throughout if the join pads that side. -/
def paddedSide (padded : Bool) (side : Schema) : Schema :=
  side.map fun field => { field with nullable := field.nullable || padded }

/-- The schema of a join: the left columns, then the right ones. -/
def joinSchema (left right : Schema) (kind : JoinKind) : Schema :=
  paddedSide kind.padsLeft left ++ paddedSide kind.padsRight right

@[simp] theorem length_joinSchema (left right : Schema) (kind : JoinKind) :
    (joinSchema left right kind).length = left.length + right.length := by
  simp [joinSchema, paddedSide]

end QueryAnalysis
