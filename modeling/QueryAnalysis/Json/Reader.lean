import QueryAnalysis.Json
import QueryAnalysis.Number.Decimal
import QueryAnalysis.Text.Escapes

/-!
# Reading JSON text

`Json.parse?` reads a text that holds one JSON value and nothing else but blanks. Each reading
function takes the characters ahead and gives what it read with the characters after it. `fuel`
bounds the nesting and the length of lists and strings; no more than two units of it are spent for
each character, so `Json.parse?` never runs out of it.
-/

namespace QueryAnalysis.Json

export Text (hexDigit? hexNumber? charOfCode?)

/-- Drops blanks. -/
def skipBlanks (cs : List Char) : List Char :=
  cs.dropWhile fun c => c == ' ' || c == '\t' || c == '\n' || c == '\r'

/-- The character written as `u` and four hexadecimal digits; one beyond the first 65536 code
points is written as two halves. -/
def unicodeEscape? (cs : List Char) : Option (Char × List Char) := do
  let (high, rest) ← hexNumber? 4 cs
  if 0xD800 ≤ high ∧ high < 0xDC00 then
    match rest with
    | '\\' :: 'u' :: rest => do
      let (low, rest) ← hexNumber? 4 rest
      if 0xDC00 ≤ low ∧ low < 0xE000 then do
        let c ← charOfCode? (0x10000 + (high - 0xD800) * 0x400 + (low - 0xDC00))
        some (c, rest)
      else none
    | _ => none
  else do
    let c ← charOfCode? high
    some (c, rest)

/-- The character that an escape stands for, after the backslash. -/
def escape? : List Char → Option (Char × List Char)
  | '\x22' :: rest => some ('\x22', rest)
  | '\\' :: rest => some ('\\', rest)
  | '/' :: rest => some ('/', rest)
  | 'b' :: rest => some ('\x08', rest)
  | 'f' :: rest => some ('\x0c', rest)
  | 'n' :: rest => some ('\n', rest)
  | 'r' :: rest => some ('\r', rest)
  | 't' :: rest => some ('\t', rest)
  | 'u' :: rest => unicodeEscape? rest
  | _ => none

/-- The characters of a string, after the opening quote, and what follows the closing one. -/
def stringBody : Nat → List Char → Option (List Char × List Char)
  | 0, _ => none
  | _, [] => none
  | fuel + 1, c :: rest =>
    if c = '\x22' then some ([], rest)
    else if c = '\\' then do
      let (c, rest) ← escape? rest
      let (cs, rest) ← stringBody fuel rest
      some (c :: cs, rest)
    else if c.toNat < 0x20 then none
    else do
      let (cs, rest) ← stringBody fuel rest
      some (c :: cs, rest)

/-- The value of decimal digits. -/
def digitsValue (digits : List Char) : Nat :=
  digits.foldl (fun value c => value * 10 + (c.toNat - '0'.toNat)) 0

/-- The digits ahead, at least one of them. -/
def digits? (cs : List Char) : Option (List Char × List Char) :=
  let digits := cs.takeWhile Char.isDigit
  if digits.isEmpty then none else some (digits, cs.dropWhile Char.isDigit)

/-- The whole part of a number: a zero, or digits that do not begin with one. -/
def wholeDigits? : List Char → Option (List Char × List Char)
  | '0' :: rest => some (['0'], rest)
  | cs => digits? cs

/-- The digits after a point, if there is a point. -/
def fractionDigits? : List Char → Option (List Char × List Char)
  | '.' :: rest => digits? rest
  | cs => some ([], cs)

/-- The exponent of a number, if one is written. -/
def exponent? : List Char → Option (Option Int × List Char)
  | c :: rest =>
    if c = 'e' ∨ c = 'E' then
      match rest with
      | '-' :: rest => (digits? rest).map fun (ds, rest) => (some (-(digitsValue ds : Int)), rest)
      | '+' :: rest => (digits? rest).map fun (ds, rest) => (some (digitsValue ds : Int), rest)
      | rest => (digits? rest).map fun (ds, rest) => (some (digitsValue ds : Int), rest)
    else some (none, c :: rest)
  | [] => some (none, [])

/-- The number with a sign, a coefficient and an exponent. One without point and exponent is an
integer if it fits; a number too large for a double is refused. -/
def numberOf? (negative : Bool) (coefficient : Nat) (exponent : Option Int) : Option Json :=
  let value : Int := if negative then -(coefficient : Int) else coefficient
  if exponent.isNone && isInteger value && !(negative && coefficient == 0) then some (int value)
  else
    let d := Double.ofDecimal negative coefficient (exponent.getD 0)
    if d.isFinite then some (float d) else none

/-- A number, after its sign. -/
def number? (negative : Bool) (cs : List Char) : Option (Json × List Char) := do
  let (whole, rest) ← wholeDigits? cs
  let (fraction, rest) ← fractionDigits? rest
  let (exponent, rest) ← exponent? rest
  let scale : Option Int :=
    if fraction.isEmpty then exponent else some (exponent.getD 0 - fraction.length)
  let value ← numberOf? negative (digitsValue (whole ++ fraction)) scale
  some (value, rest)

mutual

/-- A value, before any blanks that precede it. -/
def value? : Nat → List Char → Option (Json × List Char)
  | 0, _ => none
  | fuel + 1, cs =>
    match skipBlanks cs with
    | 'n' :: 'u' :: 'l' :: 'l' :: rest => some (null, rest)
    | 't' :: 'r' :: 'u' :: 'e' :: rest => some (bool true, rest)
    | 'f' :: 'a' :: 'l' :: 's' :: 'e' :: rest => some (bool false, rest)
    | '\x22' :: rest =>
      (stringBody fuel rest).map fun (s, rest) => (string (String.ofList s), rest)
    | '[' :: rest =>
      match skipBlanks rest with
      | ']' :: rest => some (array [], rest)
      | rest => (elements fuel rest).map fun (es, rest) => (array es, rest)
    | '\x7b' :: rest =>
      match skipBlanks rest with
      | '\x7d' :: rest => some (object [], rest)
      | rest => (fields fuel [] rest).map fun (fs, rest) => (object fs, rest)
    | '-' :: rest => number? true rest
    | rest => number? false rest

/-- The elements of an array up to its end, at least one of them. -/
def elements : Nat → List Char → Option (List Json × List Char)
  | 0, _ => none
  | fuel + 1, cs => do
    let (element, rest) ← value? fuel cs
    match skipBlanks rest with
    | ',' :: rest => (elements fuel rest).map fun (es, rest) => (element :: es, rest)
    | ']' :: rest => some ([element], rest)
    | _ => none

/-- The fields of an object up to its end, at least one of them, added to those `before`. -/
def fields : Nat → List (String × Json) → List Char → Option (List (String × Json) × List Char)
  | 0, _, _ => none
  | fuel + 1, before, cs =>
    match skipBlanks cs with
    | '\x22' :: rest => do
      let (name, rest) ← stringBody fuel rest
      match skipBlanks rest with
      | ':' :: rest => do
        let (value, rest) ← value? fuel rest
        let after := setField before (String.ofList name) value
        match skipBlanks rest with
        | ',' :: rest => fields fuel after rest
        | '\x7d' :: rest => some (after, rest)
        | _ => none
      | _ => none
    | _ => none

end

/-- The value that a text holds. -/
def parse? (text : String) : Option Json := do
  let cs := text.toList
  let (value, rest) ← value? (2 * cs.length + 2) cs
  if (skipBlanks rest).isEmpty then some value else none

end QueryAnalysis.Json
