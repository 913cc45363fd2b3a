import QueryAnalysis.Metadata.Builtin

/-!
# Dispatch of the built-in rules

The built-in provider is a chain of two tables, and each table looks its rule up along the lineage
of the operator's kind. This module says once where a request ends: `UniqueKeys.ruleFor` and
`ColumnUniqueness.ruleFor` name the one rule that serves a kind, and `consult_builtin_uniqueKeys`
and `consult_builtin_columnsUnique` replace the whole consultation by running that rule.

`Provider.answerFrom_uniqueKeys` and `Provider.answerFrom_columnsUnique` unfold the recursion over
the plan once: the rule is run where its questions are answered by the inputs, and, for uniqueness
of columns, by the operator itself.
-/

namespace QueryAnalysis

/-! ### Outcomes -/

namespace Outcome

variable {α β : Type}

@[simp] theorem result_traced (place : Place) (operator : Plan) (request : Request)
    (outcome : Outcome (Option Answer)) :
    (traced place operator request outcome).result = outcome.result := rfl

/-- Going on with what hands the value back changes nothing. -/
theorem bind_eq_self {outcome : Outcome α} {next : α → Outcome α}
    (h : ∀ value, next value = done value) : outcome.bind next = outcome := by
  obtain ⟨events, result⟩ := outcome
  cases result with
  | ok value => simp [bind, h, done]
  | error error => rfl

theorem bind_of_ok {outcome : Outcome α} {value : α} (h : outcome.result = .ok value)
    (next : α → Outcome β) :
    outcome.bind next = ⟨outcome.events ++ (next value).events, (next value).result⟩ := by
  rw [bind, h]

theorem bind_of_error {outcome : Outcome α} {error : Error} (h : outcome.result = .error error)
    (next : α → Outcome β) : outcome.bind next = ⟨outcome.events, .error error⟩ := by
  rw [bind, h]

theorem result_bind_of_ok {outcome : Outcome α} {next : α → Outcome β} {value : α}
    (h : outcome.result = .ok value) : (outcome.bind next).result = (next value).result := by
  rw [bind_of_ok h]

end Outcome

/-! ### The rule for a kind -/

namespace UniqueKeys

/-- The rule that serves operators of a kind: the one registered for the most specific kind in its
lineage. -/
def ruleFor (limit : Option Nat) : OperatorKind → Bool → Plan → Inquiry (Option KeySet)
  | .scan => scanKeys
  | .values => valuesKeys
  | .filter | .sort => inputKeys
  | .correlate | .semiJoin => leftInputKeys
  | .project => projectKeys
  | .join => joinKeys limit
  | .aggregate => aggregateKeys
  | _ => unknownKeys

theorem inquiry_uniqueKeys (limit : Option Nat) (plan : Plan) (ignoreNulls : Bool) :
    (table limit).inquiry plan (.uniqueKeys ignoreNulls)
      = (ruleFor limit plan.kind ignoreNulls plan).bind fun keys => .done (keys.map .keys) := by
  cases plan <;> rfl

/-- The table of the rules for unique keys knows nothing about uniqueness of columns. -/
theorem inquiry_columnsUnique (limit : Option Nat) (plan : Plan) (columns : ColumnSet)
    (ignoreNulls : Bool) :
    (table limit).inquiry plan (.columnsUnique columns ignoreNulls) = .done none := by
  cases plan <;> rfl

end UniqueKeys

namespace ColumnUniqueness

/-- The rule that serves operators of a kind. -/
def ruleFor : OperatorKind → ColumnSet → Bool → Plan → Inquiry (Option Bool)
  | .filter | .sort => fromInput
  | .project => fromProjected
  | _ => fromKeys

theorem inquiry_columnsUnique (plan : Plan) (columns : ColumnSet) (ignoreNulls : Bool) :
    table.inquiry plan (.columnsUnique columns ignoreNulls)
      = (ruleFor plan.kind columns ignoreNulls plan).bind
          fun unique => .done (unique.map .bool) := by
  cases plan <;> rfl

/-- The table of the rules for uniqueness of columns knows nothing about unique keys. -/
theorem inquiry_uniqueKeys (plan : Plan) (ignoreNulls : Bool) :
    table.inquiry plan (.uniqueKeys ignoreNulls) = .done none := by
  cases plan <;> rfl

end ColumnUniqueness

namespace Provider

/-! ### Consulting the chain of both tables -/

/-- A request for unique keys runs the rule for the operator's kind, and nothing else. -/
theorem consult_builtin_uniqueKeys (limit : Option Nat) (replies : Replies) (plan : Plan)
    (ignoreNulls : Bool) :
    (builtin limit).consult replies plan (.uniqueKeys ignoreNulls)
      = ((UniqueKeys.ruleFor limit plan.kind ignoreNulls plan).bind
          fun keys => .done (keys.map .keys)).run replies := by
  simp only [builtin, consult, consultAll, UniqueKeys.inquiry_uniqueKeys,
    ColumnUniqueness.inquiry_uniqueKeys, Inquiry.run, Outcome.done_bind]
  exact Outcome.bind_eq_self fun reply => by cases reply <;> rfl

/-- A request for uniqueness of columns passes by the first table and runs the rule of the second
one. -/
theorem consult_builtin_columnsUnique (limit : Option Nat) (replies : Replies) (plan : Plan)
    (columns : ColumnSet) (ignoreNulls : Bool) :
    (builtin limit).consult replies plan (.columnsUnique columns ignoreNulls)
      = ((ColumnUniqueness.ruleFor plan.kind columns ignoreNulls plan).bind
          fun unique => .done (unique.map .bool)).run replies := by
  -- The first table answers that it knows nothing, so that the second one is asked.
  simp only [builtin, consult, consultAll, UniqueKeys.inquiry_columnsUnique,
    ColumnUniqueness.inquiry_columnsUnique, Inquiry.run, Outcome.done_bind]
  exact Outcome.bind_eq_self fun reply => by cases reply <;> rfl

/-! ### One step of the recursion over the plan -/

/-- How the inputs of an operator that stands at `place` answer. -/
def inputReplies (p : Provider) (plan : Plan) (place : Place) (i : Nat) (request : Request) :
    Outcome (Option Answer) :=
  match plan.inputs[i]? with
  | some input => p.answerFrom input (place ++ [i]) request
  | none => .done none

theorem inputReplies_of_getElem? {p : Provider} {plan input : Plan} {place : Place} {i : Nat}
    {request : Request} (h : plan.inputs[i]? = some input) :
    p.inputReplies plan place i request = p.answerFrom input (place ++ [i]) request := by
  simp [inputReplies, h]

theorem inputReplies_eq (p : Provider) (plan : Plan) (place : Place) :
    p.inputReplies plan place = fun i inner =>
      match (plan.inputs.map p.answerFrom)[i]? with
      | some ask => ask (place ++ [i]) inner
      | none => .done none := by
  funext i inner
  rw [inputReplies, List.getElem?_map]
  cases plan.inputs[i]? <;> rfl

/-- Asked for unique keys, a provider is consulted with replies of the inputs alone. -/
theorem answerFrom_uniqueKeys (p : Provider) (plan : Plan) (place : Place) (ignoreNulls : Bool) :
    p.answerFrom plan place (.uniqueKeys ignoreNulls)
      = .traced place plan (.uniqueKeys ignoreNulls)
          (p.consult ⟨p.inputReplies plan place, fun _ => .done none⟩ plan
            (.uniqueKeys ignoreNulls)) := by
  rw [answerFrom_eq, inputReplies_eq]
  rfl

/-- Asked for uniqueness of columns, a provider is consulted with replies of the inputs and of the
operator itself. -/
theorem answerFrom_columnsUnique (p : Provider) (plan : Plan) (place : Place)
    (columns : ColumnSet) (ignoreNulls : Bool) :
    p.answerFrom plan place (.columnsUnique columns ignoreNulls)
      = .traced place plan (.columnsUnique columns ignoreNulls)
          (p.consult ⟨p.inputReplies plan place,
              fun flag => p.answerFrom plan place (.uniqueKeys flag)⟩ plan
            (.columnsUnique columns ignoreNulls)) := by
  simp only [answerFrom_uniqueKeys]
  rw [answerFrom_eq, inputReplies_eq]
  rfl

end Provider

end QueryAnalysis
