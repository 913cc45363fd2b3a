import QueryAnalysis.Metadata.Table

/-!
# Uniqueness of columns

Rules that find out whether no two rows of an operator agree in a given set of columns. Filters and
sorts pass the question on to their input, and a projection does so with the columns that it passes
on. Any other operator is asked for its unique keys: the columns are unique if a key lies within
them.
-/

namespace QueryAnalysis

namespace ColumnUniqueness

/-- Columns are unique if a key of the operator lies within them; if the keys are unknown, so is
the answer. -/
def fromKeys (columns : ColumnSet) (ignoreNulls : Bool) : Plan → Inquiry (Option Bool)
  | _ => do
    let keys ← .ownKeys ignoreNulls
    return keys.map fun known => known.covers columns

/-- Columns are unique if they are so in the only input. -/
def fromInput (columns : ColumnSet) (ignoreNulls : Bool) : Plan → Inquiry (Option Bool)
  | .filter .. => .columnsUniqueOfInput 0 columns ignoreNulls
  | .sort .. => .columnsUniqueOfInput 0 columns ignoreNulls
  | other => .fail (.wrongOperator "Filter/Sort" other.kind)

/-- The input columns that a projection passes on to the given output columns. A computed column
adds nothing to uniqueness and is left out. -/
def sourceColumns (exprs : List Scalar) (columns : ColumnSet) : ColumnSet :=
  .ofList (columns.toList.filterMap fun out =>
    match exprs[out]? with
    | some (Scalar.column ordinal) => some ordinal
    | _ => none)

/-- Output columns of a projection are unique if those that they are passed on from are. -/
def fromProjected (columns : ColumnSet) (ignoreNulls : Bool) : Plan → Inquiry (Option Bool)
  | .project _ exprs _ => .columnsUniqueOfInput 0 (sourceColumns exprs columns) ignoreNulls
  | other => .fail (.wrongOperator "Project" other.kind)

/-! ### The table -/

/-- The argument types with which uniqueness of columns is asked for. -/
def signature : List ArgType := [.columns, .bool]

/-- A rule for uniqueness in the form in which it is registered. -/
def handler (rule : ColumnSet → Bool → Plan → Inquiry (Option Bool)) : Handler :=
  fun plan args => do
    let columns ← .columnsArg args 0
    let ignoreNulls ← .boolArg args 1
    let unique ← rule columns ignoreNulls plan
    return unique.map .bool

/-- The rules for uniqueness, with the kinds that they are for. -/
def rules : List (OperatorKind × (ColumnSet → Bool → Plan → Inquiry (Option Bool))) :=
  [(.rel, fromKeys), (.filter, fromInput), (.sort, fromInput), (.project, fromProjected)]

/-- The table of the rules for uniqueness. -/
def table : HandlerTable where
  name := "columns_unique"
  parameters := [(Request.columnsUniqueQuery, signature)]
  handlers := rules.map fun (kind, rule) =>
    (⟨Request.columnsUniqueQuery, kind, signature⟩, handler rule)

end ColumnUniqueness

end QueryAnalysis
