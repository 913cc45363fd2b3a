import QueryAnalysis.Json
import QueryAnalysis.Number.Decimal
import QueryAnalysis.Text.Escapes

/-!
# Writing JSON text

`Json.text` writes a JSON value without blanks. A double is written with a point, so that it reads
back as a double; one that is infinite or no number has no JSON form and becomes null.
-/

namespace QueryAnalysis.Json

/-- A character within a string: quotes, backslashes and control characters are escaped. -/
def escaped (c : Char) : String :=
  match Text.shortEscape? c with
  | some escape => escape
  | none =>
    if c.toNat < 0x20 then
      "\\u00" ++ String.ofList [Nat.digitChar (c.toNat / 16), Nat.digitChar (c.toNat % 16)]
    else String.singleton c

/-- A string in double quotes. -/
def quoted : String → String :=
  Text.quotedBy escaped

/-- A double with a point. -/
def floatText (d : Double) : String :=
  if d.isFinite then
    let text := d.text
    if text.toList.contains '.' then text else text ++ ".0"
  else "null"

mutual

/-- The text of a JSON value. -/
def text : Json → String
  | null => "null"
  | bool value => if value then "true" else "false"
  | int value => toString value
  | float value => floatText value
  | string value => quoted value
  | array elements => "[" ++ elementsText elements ++ "]"
  | object fields => "\x7b" ++ fieldsText fields ++ "\x7d"

/-- The texts of elements, with commas between them. -/
def elementsText : List Json → String
  | [] => ""
  | [element] => element.text
  | element :: elements => element.text ++ "," ++ elementsText elements

/-- The names and texts of fields, with commas between them. -/
def fieldsText : List (String × Json) → String
  | [] => ""
  | [(name, value)] => quoted name ++ ":" ++ value.text
  | (name, value) :: fields => quoted name ++ ":" ++ value.text ++ "," ++ fieldsText fields

end

end QueryAnalysis.Json
