import QueryAnalysis.Number.Double

/-!
# JSON values

`Json` is a JSON value. A number is an integer if it is written as one and fits 64 bits, with or
without a sign, and a double otherwise. The fields of an object have different names.
-/

namespace QueryAnalysis

/-- A JSON value. -/
inductive Json where
  | null
  | bool (value : Bool)
  | int (value : Int)
  | float (value : Double)
  | string (value : String)
  | array (elements : List Json)
  | object (fields : List (String × Json))

instance : Inhabited Json := ⟨.null⟩

namespace Json

/-- The integers that a JSON number can be. -/
def isInteger (value : Int) : Bool :=
  decide (Int64.minValue.toInt ≤ value) && decide (value < UInt64.size)

/-- The value of an object's field. -/
def field? : Json → String → Option Json
  | object fields, name => fields.lookup name
  | _, _ => none

/-- The elements of an array. -/
def elements? : Json → Option (List Json)
  | array elements => some elements
  | _ => none

/-- The text of a string. -/
def string? : Json → Option String
  | string value => some value
  | _ => none

/-- The value of a truth value. -/
def bool? : Json → Option Bool
  | bool value => some value
  | _ => none

/-- A natural number of 64 bits. -/
def ordinal? : Json → Option Nat
  | int value => if 0 ≤ value ∧ value < UInt64.size then some value.toNat else none
  | _ => none

/-- A signed integer of 64 bits. -/
def int64? : Json → Option Int64
  | int value =>
    if Int64.minValue.toInt ≤ value ∧ value ≤ Int64.maxValue.toInt then some (Int64.ofInt value)
    else none
  | _ => none

/-- A number read as a double: an integer becomes the nearest one. -/
def double? : Json → Option Double
  | int value => some (.ofInt value)
  | float value => some value
  | _ => none

/-- Sets a field of an object: the last of several fields with one name counts. -/
def setField (fields : List (String × Json)) (name : String) (value : Json) :
    List (String × Json) :=
  fields.filter (fun field => field.1 != name) ++ [(name, value)]

mutual

/-- How deep arrays and objects stand in each other. -/
def depth : Json → Nat
  | array elements => depthOfElements elements + 1
  | object fields => depthOfFields fields + 1
  | _ => 0

/-- The greatest depth of several values. -/
def depthOfElements : List Json → Nat
  | [] => 0
  | element :: elements => max (depth element) (depthOfElements elements)

/-- The greatest depth of the values of several fields. -/
def depthOfFields : List (String × Json) → Nat
  | [] => 0
  | (_, value) :: fields => max (depth value) (depthOfFields fields)

end

end Json

end QueryAnalysis
