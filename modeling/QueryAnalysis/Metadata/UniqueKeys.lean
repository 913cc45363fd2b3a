import QueryAnalysis.Metadata.EquiJoin
import QueryAnalysis.Metadata.Table

/-!
# Unique keys of operators

Rules that find column sets in which no two rows of an operator agree. Each rule knows one kind of
operator and asks its inputs for their keys; whether nulls are ignored is passed on unchanged.

* The keys of a scan are those that the catalog declares, and rows written in the statement have a
  key without columns if there is at most one of them.
* Filters and sorts keep the keys of their input, semi-joins and correlations those of their left
  input.
* A projection keeps the keys whose columns it all passes on, and renumbers them.
* In a join any left key together with any right key is a key. A side keeps its own keys if each of
  its rows meets at most one row of the other side, unless that side is padded with nulls.
* The grouping columns of an aggregate come first in its rows and are its key.
-/

namespace QueryAnalysis

namespace UniqueKeys

/-! ### Operators without inputs -/

/-- The keys that the catalog declares for a table. -/
def scanKeys (_ignoreNulls : Bool) : Plan → Inquiry (Option KeySet)
  | .scan _ _ keys => .done (some (.ofList keys))
  | other => .fail (.wrongOperator "Scan" other.kind)

/-- With at most one row every column set is a key, and the one without columns stands for all. -/
def valuesKeys (_ignoreNulls : Bool) : Plan → Inquiry (Option KeySet)
  | .values _ rows =>
    .done (if rows.length ≤ 1 then some (.singleton .empty) else none)
  | other => .fail (.wrongOperator "Values" other.kind)

/-! ### Operators that keep keys -/

/-- The keys of the only input. -/
def inputKeys (ignoreNulls : Bool) : Plan → Inquiry (Option KeySet)
  | .filter .. => .keysOfInput 0 ignoreNulls
  | .sort .. => .keysOfInput 0 ignoreNulls
  | other => .fail (.wrongOperator "Filter/Sort" other.kind)

/-- The keys of the left input. -/
def leftInputKeys (ignoreNulls : Bool) : Plan → Inquiry (Option KeySet)
  | .semiJoin .. => .keysOfInput 0 ignoreNulls
  | .correlate .. => .keysOfInput 0 ignoreNulls
  | other => .fail (.wrongOperator "SemiJoin/Correlate" other.kind)

/-! ### Projections -/

/-- The input columns that a projection passes on, each with its place in the output. -/
def passedColumns (columns : List Scalar) : List (Nat × Nat) :=
  columns.zipIdx.filterMap fun
    | (Scalar.column ordinal, out) => some (ordinal, out)
    | _ => none

/-- The last place at which a projection passes an input column on. -/
def outputOf? (columns : List Scalar) (ordinal : Nat) : Option Nat :=
  (passedColumns columns).reverse.lookup ordinal

/-- A key of the input in terms of the output, if the projection passes on all its columns. -/
def projectKey? (columns : List Scalar) (key : ColumnSet) : Option ColumnSet :=
  (key.toList.mapM (outputOf? columns)).map ColumnSet.ofList

/-- The keys of the input that the projection passes on entirely. A projection that passes on no
column has no key, and its input is not asked. -/
def projectKeys (ignoreNulls : Bool) : Plan → Inquiry (Option KeySet)
  | .project _ columns _ =>
    if (passedColumns columns).isEmpty then .done (some .empty)
    else do
      let keys ← .keysOfInput 0 ignoreNulls
      return keys.map fun known => known.filterMap (projectKey? columns)
  | other => .fail (.wrongOperator "Project" other.kind)

/-! ### Joins -/

/-- Every left key together with every right key. -/
def combinedKeys (left right : KeySet) : KeySet :=
  .ofList (right.keys.flatMap fun r => left.keys.map fun l => l.union r)

/-- The keys of a join, given the keys of its sides and whether the columns that the condition
equates are unique on each side; right keys are in terms of the joined row. Combined keys are left
out if there are more of them than `limit`; without a limit there are never too many. -/
def joinedKeys (limit : Option Nat) (kind : JoinKind) (left right : Option KeySet)
    (leftUnique rightUnique : Option Bool) : KeySet :=
  let combined :=
    match left, right with
    | some l, some r =>
      if limit.all fun most => decide (l.size * r.size ≤ most) then combinedKeys l r else .empty
    | _, _ => .empty
  let withLeft :=
    if rightUnique = some true ∧ kind.padsLeft = false then combined.union (left.getD .empty)
    else combined
  if leftUnique = some true ∧ kind.padsRight = false then withLeft.union (right.getD .empty)
  else withLeft

/-- Whether some columns of an input are unique there. Known keys decide it; only without them is
the input asked. -/
def uniqueOn (input : Nat) (keys : Option KeySet) (columns : ColumnSet) (ignoreNulls : Bool) :
    Inquiry (Option Bool) :=
  match keys with
  | some known => .done (some (known.covers columns))
  | none => .columnsUniqueOfInput input columns ignoreNulls

/-- The keys of a join; nothing is known of them if nothing is known of either side's. -/
def joinKeys (limit : Option Nat) (ignoreNulls : Bool) : Plan → Inquiry (Option KeySet)
  | .join left _ kind condition _ => do
    let leftKeys ← .keysOfInput 0 ignoreNulls
    let rightKeys ← .keysOfInput 1 ignoreNulls
    if leftKeys.isNone && rightKeys.isNone then
      .done none
    else
      let (leftColumns, rightColumns) := equiJoinColumns left.width condition
      let leftUnique ← uniqueOn 0 leftKeys leftColumns ignoreNulls
      let rightUnique ← uniqueOn 1 rightKeys rightColumns ignoreNulls
      let shifted := rightKeys.map fun keys => keys.map fun key => key.shift left.width
      return some (joinedKeys limit kind leftKeys shifted leftUnique rightUnique)
  | other => .fail (.wrongOperator "Join" other.kind)

/-! ### Aggregates -/

/-- The grouping columns, which come first in the output. An aggregate over all rows yields one
row, but no key is given for it. -/
def aggregateKeys (_ignoreNulls : Bool) : Plan → Inquiry (Option KeySet)
  | .aggregate _ group _ _ =>
    .done (some (if group.isEmpty then .empty else .singleton (.range 0 group.size)))
  | other => .fail (.wrongOperator "Aggregate" other.kind)

/-- Nothing is known of operators without a rule. -/
def unknownKeys (_ignoreNulls : Bool) : Plan → Inquiry (Option KeySet)
  | _ => .done none

/-! ### The table -/

/-- The argument types with which unique keys are asked for. -/
def signature : List ArgType := [.bool]

/-- A rule for unique keys in the form in which it is registered. -/
def handler (rule : Bool → Plan → Inquiry (Option KeySet)) : Handler := fun plan args => do
  let ignoreNulls ← .boolArg args 0
  let keys ← rule ignoreNulls plan
  return keys.map .keys

/-- The rules for unique keys, with the kinds that they are for. -/
def rules (limit : Option Nat) : List (OperatorKind × (Bool → Plan → Inquiry (Option KeySet))) :=
  [(.scan, scanKeys), (.values, valuesKeys), (.filter, inputKeys), (.sort, inputKeys),
    (.correlate, leftInputKeys), (.semiJoin, leftInputKeys), (.project, projectKeys),
    (.join, joinKeys limit), (.aggregate, aggregateKeys), (.rel, unknownKeys)]

/-- The table of the rules for unique keys. -/
def table (limit : Option Nat) : HandlerTable where
  name := "unique_keys"
  parameters := [(Request.uniqueKeysQuery, signature)]
  handlers := (rules limit).map fun (kind, rule) =>
    (⟨Request.uniqueKeysQuery, kind, signature⟩, handler rule)

end UniqueKeys

end QueryAnalysis
