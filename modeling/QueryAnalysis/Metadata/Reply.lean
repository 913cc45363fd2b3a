import QueryAnalysis.Metadata.Table

/-!
# Ready-made handlers

A `Reply` is a handler that needs no rule of its own. It answers a constant or nothing, fails, gives
back what the request itself holds, or asks an input and passes the answer on. Tables for operators
that are defined elsewhere can be made of them.
-/

namespace QueryAnalysis

/-- What a ready-made handler does. -/
inductive Reply where
  /-- Knows nothing. -/
  | nothing
  /-- Always gives the same answer. -/
  | constant (answer : Answer)
  /-- Always fails. -/
  | failure (error : Error)
  /-- Gives back the first argument, a column set as the only key of a key set. -/
  | firstArgument
  /-- Gives the set of all columns of the operator as its only key. -/
  | allColumns
  /-- Passes the request on to an input. -/
  | passOn (input : Nat)
  /-- Gives the unique keys of an input, nulls being ignored. -/
  | keysOfInput (input : Nat)

/-- The handler of a reply. -/
def Reply.handler : Reply → String → Handler
  | nothing, _ => fun _ _ => .done none
  | constant answer, _ => fun _ _ => .done (some answer)
  | failure error, _ => fun _ _ => .fail error
  | firstArgument, _ => fun _ args =>
    match args.head? with
    | none => .done none
    | some (.bool value) => .done (some (.bool value))
    | some (.columns value) => .done (some (.keys (.singleton value)))
  | allColumns, _ => fun plan _ => .done (some (.keys (.singleton (.range 0 plan.width))))
  | passOn input, query => fun _ args => .askInput input ⟨query, args⟩ .ofExcept
  | keysOfInput input, _ => fun _ _ => do
    let keys ← .keysOfInput input true
    return keys.map .keys

/-- The declaration that registers a reply. -/
def Reply.declaration (reply : Reply) (key : HandlerKey) : Declaration :=
  .handler key (reply.handler key.query)

end QueryAnalysis
