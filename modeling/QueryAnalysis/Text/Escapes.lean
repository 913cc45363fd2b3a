/-!
# Escapes

What the formats of text here have in common: quotes around a text whose characters are escaped one
by one, the escapes of two characters, and code points that are written in hexadecimal.
-/

namespace QueryAnalysis.Text

/-! ### Writing -/

/-- The escape of a character that has one of two characters. -/
def shortEscape? (c : Char) : Option String :=
  if c = '\x22' then some "\\\""
  else if c = '\\' then some "\\\\"
  else if c = '\n' then some "\\n"
  else if c = '\r' then some "\\r"
  else if c = '\t' then some "\\t"
  else none

/-- A text in double quotes, with its characters written one by one. -/
def quotedBy (written : Char → String) (s : String) : String :=
  "\"" ++ String.join (s.toList.map written) ++ "\""

/-! ### Reading -/

/-- The value of a hexadecimal digit. -/
def hexDigit? (c : Char) : Option Nat :=
  if '0' ≤ c ∧ c ≤ '9' then some (c.toNat - '0'.toNat)
  else if 'a' ≤ c ∧ c ≤ 'f' then some (c.toNat - 'a'.toNat + 10)
  else if 'A' ≤ c ∧ c ≤ 'F' then some (c.toNat - 'A'.toNat + 10)
  else none

/-- The number that is written with so many hexadecimal digits, and what follows them. -/
def hexNumber? (count : Nat) (cs : List Char) : Option (Nat × List Char) := do
  let digits ← (cs.take count).mapM hexDigit?
  if digits.length = count then
    some (digits.foldl (fun value d => value * 16 + d) 0, cs.drop count)
  else none

/-- The character with a code point, if there is one. -/
def charOfCode? (code : Nat) : Option Char :=
  if code.isValidChar then some (Char.ofNat code) else none

end QueryAnalysis.Text
