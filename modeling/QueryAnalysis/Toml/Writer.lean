import QueryAnalysis.Toml.Document

/-!
# Writing configuration documents

`Toml.documentText` writes a document that consists of sections: tables of settings under a header,
with an empty line between them. A setting is a natural number, a string or a truth value. Names and
strings are written as they are, without escapes.
-/

namespace QueryAnalysis.Toml

/-- A value as settings have it. -/
inductive Value where
  | natural (n : Nat)
  | string (text : String)
  | boolean (truth : Bool)

/-- The characters that a value is written with. -/
def Value.chars : Value → List Char
  | natural n => Nat.toDigits 10 n
  | string text => '\x22' :: (text.toList ++ ['\x22'])
  | boolean true => ['t', 'r', 'u', 'e']
  | boolean false => ['f', 'a', 'l', 's', 'e']

/-- A line of a document as settings are written. -/
inductive Line where
  | blank
  | header (name : String)
  | setting (name : String) (value : Value)

/-- The characters of a line, up to its end. -/
def Line.chars : Line → List Char
  | blank => []
  | header name => '[' :: (name.toList ++ [']'])
  | setting name value => name.toList ++ (' ' :: '=' :: ' ' :: value.chars)

/-- A table of settings under a header. -/
structure Section where
  name : String
  settings : List (String × Value)

/-- The lines that a section is written as. -/
def Section.lines (s : Section) : List Line :=
  .header s.name :: s.settings.map fun (key, value) => .setting key value

/-- The lines of a document: its sections with an empty line between them. -/
def documentLines : List Section → List Line
  | [] => []
  | s :: rest => s.lines ++ rest.flatMap fun s => .blank :: s.lines

/-- The text of a document. -/
def documentText (sections : List Section) : String :=
  String.ofList ((documentLines sections).flatMap fun l => l.chars ++ ['\n'])

end QueryAnalysis.Toml
