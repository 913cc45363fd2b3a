/-!
# Configuration documents

A TOML document is a table of named nodes. It is written as a list of statements: assignments of a
value to a dotted key, and headers that open a table, or a further element of a list of tables, to
which the assignments after them belong. `Toml.ofStatements?` carries the statements out.

A table can be extended only in the way it came about. `Origin` records that way. A table that was
opened by a header is closed to dotted keys and to another header. One that a dotted key made grows
by dotted keys alone, though headers may open tables inside it. One that was merely passed through
on the way to another can be opened once. A table that is a value is complete as it stands.
-/

namespace QueryAnalysis.Toml

/-- How a table came about. -/
inductive Origin where
  /-- A header opened it. -/
  | header
  /-- A header for a table inside it passed through. -/
  | passage
  /-- A dotted key passed through. -/
  | dotted
  /-- It was written as a value. -/
  | value
deriving DecidableEq

/-- A value, a table or a list of tables. The content of a number with a fraction and of a point in
time is not kept. -/
inductive Node where
  | string (text : String)
  | integer (value : Int)
  | float
  | boolean (value : Bool)
  | dateTime
  | array (elements : List Node)
  | table (origin : Origin) (entries : List (String × Node))
  /-- Tables opened by headers in double brackets. -/
  | tables (elements : List (List (String × Node)))

/-- The named nodes of a table. -/
abbrev Entries := List (String × Node)

/-- A line of a document. -/
inductive Statement where
  /-- Gives a value to a dotted key. -/
  | assign (path : List String) (value : Node)
  /-- Opens a table. -/
  | table (path : List String)
  /-- Opens a further element of a list of tables. -/
  | element (path : List String)

namespace Entries

/-- Replaces the node with a name. -/
def replace (entries : Entries) (name : String) (node : Node) : Entries :=
  entries.map fun (other, old) => if other = name then (other, node) else (other, old)

/-- Gives a value to a dotted key of a table. The names before the last one lead through tables
made by dotted keys, or through the tables that a header passed through and the last elements of
lists of tables, as long as the value does not go directly into one of these. -/
def assign? (value : Node) : List String → Entries → Option Entries
  | [], _ => none
  | [name], entries =>
    if (entries.lookup name).isSome then none else some (entries ++ [(name, value)])
  | name :: rest@(_ :: deeper), entries =>
    match entries.lookup name with
    | none =>
      (assign? value rest []).map fun inner => entries ++ [(name, .table .dotted inner)]
    | some (.table .dotted inner) =>
      (assign? value rest inner).map fun inner => entries.replace name (.table .dotted inner)
    | some (.table .passage inner) =>
      if deeper.isEmpty then none
      else (assign? value rest inner).map fun inner =>
        entries.replace name (.table .passage inner)
    | some (.tables elements) =>
      if deeper.isEmpty then none
      else match elements.getLast? with
        | some last => (assign? value rest last).map fun last =>
          entries.replace name (.tables (elements.dropLast ++ [last]))
        | none => none
    | some _ => none

/-- Changes the table at the end of a header's path. A table that is not there yet is made on the
way, and a list of tables is entered at its last element. -/
def modify? (change : Entries → Option Entries) : List String → Entries → Option Entries
  | [], entries => change entries
  | name :: path, entries =>
    match entries.lookup name with
    | none => (modify? change path []).map fun inner => entries ++ [(name, .table .passage inner)]
    | some (.table .value _) => none
    | some (.table origin inner) =>
      (modify? change path inner).map fun inner => entries.replace name (.table origin inner)
    | some (.tables elements) =>
      match elements.getLast? with
      | some last => (modify? change path last).map fun last =>
        entries.replace name (.tables (elements.dropLast ++ [last]))
      | none => none
    | some _ => none

/-- Opens the table with a name: a new one, or one that was only passed through. -/
def openTable? (name : String) (entries : Entries) : Option Entries :=
  match entries.lookup name with
  | none => some (entries ++ [(name, .table .header [])])
  | some (.table .passage inner) => some (entries.replace name (.table .header inner))
  | some _ => none

/-- Opens a further element of the list of tables with a name. -/
def openElement? (name : String) (entries : Entries) : Option Entries :=
  match entries.lookup name with
  | none => some (entries ++ [(name, .tables [[]])])
  | some (.tables elements) => some (entries.replace name (.tables (elements ++ [[]])))
  | some _ => none

/-- The table that is written as a value with these assignments. -/
def ofAssignments? (assignments : List (List String × Node)) : Option Entries :=
  assignments.foldlM (fun entries (path, value) => assign? value path entries) []

end Entries

/-- The document so far, and the path of the table that was opened last. -/
structure Progress where
  root : Entries
  current : List String

/-- Carries out a statement. -/
def Progress.step? (p : Progress) : Statement → Option Progress
  | .assign path value => do
    let root ← Entries.modify? (Entries.assign? value path) p.current p.root
    some { p with root }
  | .table path => do
    let name ← path.getLast?
    let root ← Entries.modify? (Entries.openTable? name) path.dropLast p.root
    some ⟨root, path⟩
  | .element path => do
    let name ← path.getLast?
    let root ← Entries.modify? (Entries.openElement? name) path.dropLast p.root
    some ⟨root, path⟩

/-- The table that a list of statements describes, if each of them can be carried out. -/
def ofStatements? (statements : List Statement) : Option Entries := do
  let p ← statements.foldlM Progress.step? ⟨[], []⟩
  some p.root

end QueryAnalysis.Toml
