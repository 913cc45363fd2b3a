import QueryAnalysis.Number.Decimal
import QueryAnalysis.Text.Escapes
import QueryAnalysis.Toml.Document

/-!
# Reading configuration documents

`Toml.parse?` reads the text of a TOML document. Each reading function takes the characters ahead
and gives what it read with the characters after it, and there is no result if the text is
malformed. `fuel` bounds the length of lists and strings, for which the number of characters is
always enough. Nesting is bounded by the format itself: arrays and tables written as values may
stand in each other `nestingLimit - 1` deep, and a dotted key has fewer than `nestingLimit` names.
-/

namespace QueryAnalysis.Toml

open Text (hexDigit? hexNumber? charOfCode?)

/-! ### Lines -/

/-- Spaces and tabs. -/
def isBlank (c : Char) : Bool :=
  c == ' ' || c == '\t'

/-- Drops spaces and tabs. -/
def skipBlanks (cs : List Char) : List Char :=
  cs.dropWhile isBlank

/-- The characters that may stand in a comment: all but the control characters other than tab. -/
def isCommentChar (c : Char) : Bool :=
  c == '\t' || (decide (0x20 ≤ c.toNat) && c != '\x7f')

/-- What follows the end of a line. -/
def newline? : List Char → Option (List Char)
  | '\n' :: rest => some rest
  | '\r' :: '\n' :: rest => some rest
  | _ => none

/-- What follows the end of a line or of the text. -/
def lineEnd? : List Char → Option (List Char)
  | [] => some []
  | cs => newline? cs

/-- Drops a comment. -/
def skipComment : List Char → List Char
  | '#' :: rest => rest.dropWhile isCommentChar
  | cs => cs

/-- What follows the rest of a line, which may only be blanks and a comment. -/
def lineRest? (cs : List Char) : Option (List Char) :=
  lineEnd? (skipComment (skipBlanks cs))

/-- Drops blanks and whole line ends, with the comments before them. -/
def skipLines : Nat → List Char → Option (List Char)
  | 0, _ => none
  | fuel + 1, cs =>
    match skipBlanks cs with
    | '#' :: rest => (newline? (rest.dropWhile isCommentChar)).bind (skipLines fuel)
    | rest =>
      match newline? rest with
      | some rest => skipLines fuel rest
      | none => some rest

/-! ### Strings -/

/-- The characters of a string on one line that stand for themselves, quotes and backslash apart. -/
def isTextChar (c : Char) : Bool :=
  isCommentChar c

/-- The character whose code point is written with so many hexadecimal digits. -/
def codePoint? (count : Nat) (cs : List Char) : Option (Char × List Char) := do
  let (code, rest) ← hexNumber? count cs
  let c ← charOfCode? code
  some (c, rest)

/-- The character that an escape stands for, after the backslash. -/
def escape? : List Char → Option (Char × List Char)
  | 'b' :: rest => some ('\x08', rest)
  | 't' :: rest => some ('\t', rest)
  | 'n' :: rest => some ('\n', rest)
  | 'f' :: rest => some ('\x0c', rest)
  | 'r' :: rest => some ('\r', rest)
  | '\x22' :: rest => some ('\x22', rest)
  | '\\' :: rest => some ('\\', rest)
  | 'u' :: rest => codePoint? 4 rest
  | 'U' :: rest => codePoint? 8 rest
  | _ => none

/-- The characters of a string in double quotes, after the opening quote. -/
def basicBody : Nat → List Char → Option (List Char × List Char)
  | 0, _ => none
  | _, [] => none
  | fuel + 1, c :: rest =>
    if c = '\x22' then some ([], rest)
    else if c = '\\' then do
      let (c, rest) ← escape? rest
      let (cs, rest) ← basicBody fuel rest
      some (c :: cs, rest)
    else if isTextChar c then do
      let (cs, rest) ← basicBody fuel rest
      some (c :: cs, rest)
    else none

/-- The characters of a string in single quotes, after the opening quote. Nothing is escaped. -/
def literalBody (cs : List Char) : Option (List Char × List Char) :=
  let text := cs.takeWhile fun c => isTextChar c && c != '\x27'
  match cs.drop text.length with
  | '\x27' :: rest => some (text, rest)
  | _ => none

/-- Drops a line end directly after the opening quotes of a string on several lines. -/
def skipFirstNewline (cs : List Char) : List Char :=
  (newline? cs).getD cs

/-- Three quotes end a string on several lines; up to two quotes before them belong to it. -/
def closing? (quote : Char) : List Char → Option (List Char × List Char)
  | a :: b :: c :: rest =>
    if a = quote ∧ b = quote ∧ c = quote then
      let extra := min 2 (rest.takeWhile fun c => c == quote).length
      some (List.replicate extra quote, rest.drop extra)
    else none
  | _ => none

/-- Drops blanks and line ends. -/
def skipSpace : List Char → List Char
  | [] => []
  | '\r' :: '\n' :: rest => skipSpace rest
  | c :: rest => if isBlank c || c == '\n' then skipSpace rest else c :: rest

/-- The characters of a string on several lines, after the opening quotes. In double quotes there
are escapes, one of which is a backslash at the end of a line: it drops the line end and all blanks
and empty lines after it. -/
def multilineBody (quote : Char) : Nat → List Char → Option (List Char × List Char)
  | 0, _ => none
  | _, [] => none
  | fuel + 1, c :: rest =>
    match closing? quote (c :: rest), newline? (c :: rest) with
    | some result, _ => some result
    | none, some rest => do
      let (cs, rest) ← multilineBody quote fuel rest
      some ('\n' :: cs, rest)
    | none, none =>
      if c = '\\' ∧ quote = '\x22' then
        match newline? (skipBlanks rest) with
        | some rest => multilineBody quote fuel (skipSpace rest)
        | none => do
          let (c, rest) ← escape? rest
          let (cs, rest) ← multilineBody quote fuel rest
          some (c :: cs, rest)
      else if isTextChar c then do
        let (cs, rest) ← multilineBody quote fuel rest
        some (c :: cs, rest)
      else none

/-- A string, of whichever of the four kinds. -/
def string? (cs : List Char) : Option (String × List Char) :=
  let read :=
    match cs with
    | '\x22' :: '\x22' :: '\x22' :: rest =>
      multilineBody '\x22' (rest.length + 1) (skipFirstNewline rest)
    | '\x27' :: '\x27' :: '\x27' :: rest =>
      multilineBody '\x27' (rest.length + 1) (skipFirstNewline rest)
    | '\x22' :: rest => basicBody (rest.length + 1) rest
    | '\x27' :: rest => literalBody rest
    | _ => none
  read.map fun (text, rest) => (String.ofList text, rest)

/-! ### Keys -/

/-- How deep values and keys may not go. -/
def nestingLimit : Nat := 80

/-- The characters of a key without quotes. -/
def isBareChar (c : Char) : Bool :=
  c.isAlphanum || c == '_' || c == '-'

/-- One name of a key. -/
def name? (cs : List Char) : Option (String × List Char) :=
  match cs with
  | '\x22' :: rest =>
    (basicBody (rest.length + 1) rest).map fun (text, rest) => (String.ofList text, rest)
  | '\x27' :: rest => (literalBody rest).map fun (text, rest) => (String.ofList text, rest)
  | _ =>
    let bare := cs.takeWhile isBareChar
    if bare.isEmpty then none else some (String.ofList bare, cs.drop bare.length)

/-- The names of a dotted key, with the blanks around them. -/
def names? : Nat → List Char → Option (List String × List Char)
  | 0, _ => none
  | fuel + 1, cs => do
    let (name, rest) ← name? (skipBlanks cs)
    match skipBlanks rest with
    | '.' :: rest => (names? fuel rest).map fun (names, rest) => (name :: names, rest)
    | rest => some ([name], rest)

/-- A dotted key. -/
def key? (cs : List Char) : Option (List String × List Char) := do
  let (names, rest) ← names? (cs.length + 1) cs
  if names.length < nestingLimit then some (names, rest) else none

/-! ### Numbers and points in time -/

/-- Whether underscores stand only between digits, one at a time. -/
def isSpaced : List Char → Bool
  | [] => false
  | [c] => c != '_'
  | '_' :: _ => false
  | _ :: '_' :: rest => isSpaced rest
  | _ :: c :: rest => isSpaced (c :: rest)

/-- Digits of some base, with single underscores between them. -/
def digitRun? (isDigit : Char → Bool) (cs : List Char) : Option (List Char × List Char) :=
  let run := cs.takeWhile fun c => isDigit c || c == '_'
  if isSpaced run then some (run.filter fun c => c != '_', cs.drop run.length) else none

/-- The value of digits in a base. -/
def digitsValue (base : Nat) (digits : List Char) : Nat :=
  digits.foldl (fun value c => value * base + (hexDigit? c).getD 0) 0

/-- An integer, if it fits 64 bits. -/
def integerOf? (value : Int) : Option Node :=
  if Int64.minValue.toInt ≤ value ∧ value ≤ Int64.maxValue.toInt then some (.integer value) else none

/-- An integer in a base other than ten, after its mark. -/
def basedInteger? (base : Nat) (isDigit : Char → Bool) (cs : List Char) :
    Option (Node × List Char) := do
  let (digits, rest) ← digitRun? isDigit cs
  let value ← integerOf? (digitsValue base digits)
  some (value, rest)

/-- The digits after a point; `none` if there is no point. -/
def fraction? : List Char → Option (Option (List Char) × List Char)
  | '.' :: rest => (digitRun? Char.isDigit rest).map fun (ds, rest) => (some ds, rest)
  | cs => some (none, cs)

/-- The exponent of a number; `none` if there is none. -/
def exponent? : List Char → Option (Option Int × List Char)
  | [] => some (none, [])
  | c :: rest =>
    if c = 'e' ∨ c = 'E' then
      let (negative, digits) :=
        match rest with
        | '-' :: rest => (true, rest)
        | '+' :: rest => (false, rest)
        | rest => (false, rest)
      (digitRun? Char.isDigit digits).map fun (ds, rest) =>
        let value : Int := digitsValue 10 ds
        (some (if negative then -value else value), rest)
    else some (none, c :: rest)

/-- A number after its sign: an integer, or with a fraction or an exponent a double. The whole part
has no leading zero. A positive number too large for a double is refused. -/
def decimal? (negative : Bool) (cs : List Char) : Option (Node × List Char) := do
  let (whole, rest) ← digitRun? Char.isDigit cs
  if whole.head? = some '0' ∧ whole.length ≠ 1 then none
  else
    let (fraction, rest) ← fraction? rest
    let (exponent, rest) ← exponent? rest
    match fraction, exponent with
    | none, none =>
      let value : Int := digitsValue 10 whole
      (integerOf? (if negative then -value else value)).map fun node => (node, rest)
    | fraction, exponent =>
      let digits := whole ++ fraction.getD []
      let scale := exponent.getD 0 - (fraction.getD []).length
      let d := Double.ofDecimal negative (digitsValue 10 digits) scale
      if d.isInfinite && !negative then none else some (.float, rest)

/-- The value of so many digits, without regard to what follows. -/
def fixedDigits? (count : Nat) (cs : List Char) : Option (Nat × List Char) :=
  let digits := cs.take count
  if digits.length = count ∧ digits.all Char.isDigit then
    some (digitsValue 10 digits, cs.drop count)
  else none

/-- A given character. -/
def char? (c : Char) : List Char → Option (List Char)
  | d :: rest => if d = c then some rest else none
  | [] => none

/-- How many days a month of a year has. -/
def daysIn (year month : Nat) : Nat :=
  if month = 2 then
    if year % 4 = 0 ∧ (year % 100 ≠ 0 ∨ year % 400 = 0) then 29 else 28
  else if month = 4 ∨ month = 6 ∨ month = 9 ∨ month = 11 then 30
  else 31

/-- What follows a date: year, month and day. -/
def date? (cs : List Char) : Option (List Char) := do
  let (year, rest) ← fixedDigits? 4 cs
  let rest ← char? '-' rest
  let (month, rest) ← fixedDigits? 2 rest
  let rest ← char? '-' rest
  let (day, rest) ← fixedDigits? 2 rest
  if 1 ≤ month ∧ month ≤ 12 ∧ 1 ≤ day ∧ day ≤ daysIn year month then some rest else none

/-- What follows a time of day: hours, minutes and seconds, of which a minute may have 61, with or
without a fraction. -/
def time? (cs : List Char) : Option (List Char) := do
  let (hour, rest) ← fixedDigits? 2 cs
  let rest ← char? ':' rest
  let (minute, rest) ← fixedDigits? 2 rest
  let rest ← char? ':' rest
  let (second, rest) ← fixedDigits? 2 rest
  if hour < 24 ∧ minute < 60 ∧ second ≤ 60 then
    match rest with
    | '.' :: digit :: more =>
      some (if digit.isDigit then more.dropWhile Char.isDigit else rest)
    | rest => some rest
  else none

/-- What follows an offset from universal time. -/
def offset? : List Char → Option (List Char)
  | [] => none
  | c :: rest =>
    if c = 'Z' ∨ c = 'z' then some rest
    else if c = '+' ∨ c = '-' then do
      let (hour, rest) ← fixedDigits? 2 rest
      let rest ← char? ':' rest
      let (minute, rest) ← fixedDigits? 2 rest
      if hour < 24 ∧ minute < 60 then some rest else none
    else none

/-- What follows a date with or without a time of day, or a time of day alone. -/
def dateTime? (cs : List Char) : Option (List Char) :=
  match date? cs with
  | none => time? cs
  | some rest =>
    match rest with
    | c :: more =>
      if c = 'T' ∨ c = 't' ∨ c = ' ' then
        match time? more with
        | some rest => some ((offset? rest).getD rest)
        | none => some rest
      else some rest
    | [] => some []

/-- A number or a point in time. -/
def number? (cs : List Char) : Option (Node × List Char) :=
  match dateTime? cs with
  | some rest => some (.dateTime, rest)
  | none =>
    match cs with
    | '0' :: 'x' :: rest => basedInteger? 16 (fun c => (hexDigit? c).isSome) rest
    | '0' :: 'o' :: rest => basedInteger? 8 (fun c => decide ('0' ≤ c ∧ c ≤ '7')) rest
    | '0' :: 'b' :: rest => basedInteger? 2 (fun c => c == '0' || c == '1') rest
    | cs =>
      let (negative, unsigned) :=
        match cs with
        | '-' :: rest => (true, rest)
        | '+' :: rest => (false, rest)
        | cs => (false, cs)
      match unsigned with
      | 'i' :: 'n' :: 'f' :: rest => some (.float, rest)
      | 'n' :: 'a' :: 'n' :: rest => some (.float, rest)
      | digits => decimal? negative digits

/-! ### Values -/

mutual

/-- A value; `room` is how many more levels of arrays and tables may be opened. -/
def value? : Nat → Nat → List Char → Option (Node × List Char)
  | 0, _, _ => none
  | fuel + 1, room, cs =>
    match cs with
    | '\x22' :: _ => (string? cs).map fun (text, rest) => (.string text, rest)
    | '\x27' :: _ => (string? cs).map fun (text, rest) => (.string text, rest)
    | 't' :: 'r' :: 'u' :: 'e' :: rest => some (.boolean true, rest)
    | 'f' :: 'a' :: 'l' :: 's' :: 'e' :: rest => some (.boolean false, rest)
    | '[' :: rest =>
      if room = 0 then none
      else (elements? fuel (room - 1) rest).map fun (nodes, rest) => (.array nodes, rest)
    | '\x7b' :: rest =>
      if room = 0 then none
      else match skipBlanks rest with
        | '\x7d' :: rest => some (.table .value [], rest)
        | rest => do
          let (assignments, rest) ← assignments? fuel (room - 1) rest
          let entries ← Entries.ofAssignments? assignments
          some (.table .value entries, rest)
    | cs => number? cs

/-- The elements of an array up to its end. A comma may follow the last one, and there may be line
ends and comments anywhere between them. -/
def elements? : Nat → Nat → List Char → Option (List Node × List Char)
  | 0, _, _ => none
  | fuel + 1, room, cs => do
    let rest ← skipLines (cs.length + 1) cs
    match rest with
    | ']' :: rest => some ([], rest)
    | rest => do
      let (node, rest) ← value? fuel room rest
      let rest ← skipLines (rest.length + 1) rest
      match rest with
      | ',' :: rest => (elements? fuel room rest).map fun (nodes, rest) => (node :: nodes, rest)
      | ']' :: rest => some ([node], rest)
      | _ => none

/-- The assignments of a table that is written as a value up to its end, at least one of them, all
on one line. -/
def assignments? : Nat → Nat → List Char →
    Option (List (List String × Node) × List Char)
  | 0, _, _ => none
  | fuel + 1, room, cs => do
    let (path, rest) ← key? cs
    let rest ← char? '=' rest
    let (node, rest) ← value? fuel room (skipBlanks rest)
    match skipBlanks rest with
    | ',' :: rest => (assignments? fuel room rest).map fun (more, rest) =>
      ((path, node) :: more, rest)
    | '\x7d' :: rest => some ([(path, node)], rest)
    | _ => none

end

/-! ### Documents -/

/-- A header, after its opening brackets, with the rest of its line. -/
def header? (closing : List Char) (cs : List Char) : Option (List String × List Char) := do
  let (path, rest) ← key? cs
  let rest ← closing.foldlM (fun rest c => char? c rest) rest
  let rest ← lineRest? rest
  some (path, rest)

/-- An assignment with the rest of its line. -/
def assignment? (cs : List Char) : Option (Statement × List Char) := do
  let (path, rest) ← key? cs
  let rest ← char? '=' rest
  let (node, rest) ← value? (rest.length + 1) (nestingLimit - 1) (skipBlanks rest)
  let rest ← lineRest? rest
  some (.assign path node, rest)

/-- The statements of a document. -/
def statements? : Nat → List Char → Option (List Statement)
  | 0, _ => none
  | fuel + 1, cs =>
    match skipBlanks cs with
    | [] => some []
    | '#' :: rest => (lineRest? ('#' :: rest)).bind (statements? fuel)
    | '[' :: '[' :: rest => do
      let (path, rest) ← header? [']', ']'] rest
      (statements? fuel rest).map (Statement.element path :: ·)
    | '[' :: rest => do
      let (path, rest) ← header? [']'] rest
      (statements? fuel rest).map (Statement.table path :: ·)
    | cs =>
      match newline? cs with
      | some rest => statements? fuel rest
      | none => do
        let (statement, rest) ← assignment? cs
        (statements? fuel rest).map (statement :: ·)

/-- Drops the mark with which a text may say that it is Unicode text. -/
def skipMark : List Char → List Char
  | '\ufeff' :: rest => rest
  | cs => cs

/-- The table that the text of a document describes. -/
def parse? (text : String) : Option Entries := do
  let cs := skipMark text.toList
  let statements ← statements? (cs.length + 1) cs
  ofStatements? statements

end QueryAnalysis.Toml
