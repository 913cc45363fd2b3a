import QueryAnalysis.Text.Escapes
import QueryAnalysis.Text.Unprintable

/-!
# Quoted text

`Text.quoted` shows a text in double quotes so that every character can be told: quotes and
backslashes are escaped, and a character without a mark of its own is shown by its code point.
-/

namespace QueryAnalysis.Text

/-- A character within quoted text. -/
def escaped (c : Char) : String :=
  match shortEscape? c with
  | some escape => escape
  | none =>
    if c.toNat = 0 then "\\0"
    else if isUnprintable c then
      "\\u\x7b" ++ String.ofList (Nat.toDigits 16 c.toNat) ++ "\x7d"
    else String.singleton c

/-- A text in double quotes. -/
def quoted : String → String :=
  quotedBy escaped

end QueryAnalysis.Text
