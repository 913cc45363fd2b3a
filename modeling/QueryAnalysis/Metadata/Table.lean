import QueryAnalysis.Metadata.Inquiry
import QueryAnalysis.Text.Quoted

/-!
# Tables of handlers

A `HandlerTable` holds rules for requests. A rule is registered for a query, a kind of operator and
a signature; the table is told separately with which argument types a query is dispatched. A
request goes to the rule registered for the most specific kind in the operator's lineage
(`HandlerTable.resolve?`).

A table is made from a list of declarations (`HandlerTable.ofDeclarations`). Declaring the types of
a query again replaces them; registering a second rule for the same query, kind and signature is
refused, as there would be no way to choose between the two.
-/

namespace QueryAnalysis

/-- A rule for a request: what it makes of an operator and of the arguments. -/
abbrev Handler := Plan → List Arg → Inquiry (Option Answer)

/-- What a rule is registered for. -/
structure HandlerKey where
  query : String
  kind : OperatorKind
  signature : List ArgType
deriving DecidableEq

/-- Rules for requests, by what they are registered for. -/
structure HandlerTable where
  /-- The table's name in error messages. -/
  name : String
  /-- The argument types of queries, the latest declaration first. -/
  parameters : List (String × List ArgType)
  /-- The rules in the order of registration. -/
  handlers : List (HandlerKey × Handler)

/-- A step in making a table. -/
inductive Declaration where
  /-- A query is dispatched with these argument types. -/
  | types (query : String) (types : List ArgType)
  /-- A rule for a query on operators of a kind. -/
  | handler (key : HandlerKey) (handler : Handler)

namespace HandlerTable

/-- The table without rules. -/
def new (name : String) : HandlerTable :=
  ⟨name, [], []⟩

/-- The argument types that a query is dispatched with; none if they were not declared. -/
def parameterTypes (t : HandlerTable) (query : String) : List ArgType :=
  (t.parameters.lookup query).getD []

/-- The rule registered for a query, a kind and a signature. -/
def handler? (t : HandlerTable) (key : HandlerKey) : Option Handler :=
  t.handlers.lookup key

/-- Declares the argument types of a query. -/
def declare (t : HandlerTable) (query : String) (types : List ArgType) : HandlerTable :=
  { t with parameters := (query, types) :: t.parameters }

/-- Registers a rule. -/
def register (t : HandlerTable) (key : HandlerKey) (handler : Handler) :
    Except Error HandlerTable :=
  if (t.handlers.map Prod.fst).contains key then
    .error (.ambiguousHandler key.query key.kind key.signature)
  else .ok { t with handlers := t.handlers ++ [(key, handler)] }

/-- Adds what a declaration says. -/
def add (t : HandlerTable) : Declaration → Except Error HandlerTable
  | .types query types => .ok (t.declare query types)
  | .handler key handler => t.register key handler

/-- The table that a list of declarations makes. -/
def ofDeclarations (name : String) (declarations : List Declaration) :
    Except Error HandlerTable :=
  declarations.foldlM add (new name)

/-- The rule for a query on operators of a kind, and the kind that it is registered for: the most
specific one in the lineage for which there is a rule with the query's argument types. -/
def resolve? (t : HandlerTable) (kind : OperatorKind) (query : String) :
    Option (OperatorKind × Handler) :=
  kind.lineage.findSome? fun candidate =>
    (t.handler? ⟨query, candidate, t.parameterTypes query⟩).map fun handler =>
      (candidate, handler)

/-- What a table makes of a request about an operator. Without a rule nothing is known, whatever
the arguments; with one, the arguments must have the declared types. -/
def inquiry (t : HandlerTable) (plan : Plan) (request : Request) : Inquiry (Option Answer) :=
  match t.resolve? plan.kind request.query with
  | none => .done none
  | some (_, handler) =>
    if request.args.map Arg.type = t.parameterTypes request.query then
      handler plan request.args
    else
      .fail (.argumentTypes t.name request.query (t.parameterTypes request.query) request.args)

/-- What a rule is registered for, as a table's listing shows it. -/
def keyText (key : HandlerKey) : String :=
  key.query ++ ":" ++ key.kind.text ++ ArgType.listText key.signature

/-- The listing of a table: its name and what it has rules for, in alphabetical order. -/
def listing (t : HandlerTable) : String :=
  let keys := (t.handlers.map fun (key, _) => keyText key).mergeSort fun a b => !decide (b < a)
  "HandlerTable \x7b name: " ++ Text.quoted t.name ++ ", handlers: ["
    ++ ", ".intercalate (keys.map Text.quoted) ++ "] \x7d"

end HandlerTable

end QueryAnalysis
