import QueryAnalysis.Metadata.Table

/-!
# Providers of metadata

A `Provider` answers requests about the operators of a plan: it is a table of rules, or a chain of
providers of which the first that knows something is believed.

`Provider.answer` puts a request to an operator. Questions that a rule asks on the way go to the
same provider, so a chain as a whole is consulted again at every operator. The recursion is over
the plan: a rule can ask about the inputs of its operator, and a rule for another query than the
unique keys can ask for the unique keys of its own operator, which come first there.

An `Outcome` carries the events on the way, every request with its result, beside the result.
-/

namespace QueryAnalysis

/-! ### Outcomes -/

/-- The way from the root of a plan to an operator: the number of the input at each step. -/
abbrev Place := List Nat

/-- What happens while a request is answered. -/
inductive Event where
  /-- A request is put to an operator. -/
  | asked (place : Place) (operator : Plan) (request : Request)
  /-- A request has its result. -/
  | answered (place : Place) (request : Request) (result : Except Error (Option Answer))

/-- The result of an activity, and the events on the way to it. -/
structure Outcome (α : Type) where
  events : List Event
  result : Except Error α

namespace Outcome

variable {α β : Type}

/-- The outcome that is there without any event. -/
def done (value : α) : Outcome α :=
  ⟨[], .ok value⟩

/-- The failure that is there without any event. -/
def fail (error : Error) : Outcome α :=
  ⟨[], .error error⟩

/-- Goes on with `next` after a success. Nothing happens after a failure. -/
def bind (outcome : Outcome α) (next : α → Outcome β) : Outcome β :=
  match outcome.result with
  | .ok value => ⟨outcome.events ++ (next value).events, (next value).result⟩
  | .error error => ⟨outcome.events, .error error⟩

/-- Goes on with `next` after a success as well as after a failure. -/
def follow (outcome : Outcome α) (next : Except Error α → Outcome β) : Outcome β :=
  ⟨outcome.events ++ (next outcome.result).events, (next outcome.result).result⟩

instance : Monad Outcome where
  pure := done
  bind := bind

@[simp] theorem done_bind (value : α) (next : α → Outcome β) :
    (done value).bind next = next value := rfl

@[simp] theorem fail_bind (error : Error) (next : α → Outcome β) :
    (fail error : Outcome α).bind next = fail error := rfl

theorem bind_assoc {γ : Type} (outcome : Outcome α) (first : α → Outcome β)
    (second : β → Outcome γ) :
    (outcome.bind first).bind second = outcome.bind fun value => (first value).bind second := by
  obtain ⟨events, result⟩ := outcome
  cases result with
  | error error => rfl
  | ok value =>
    simp only [bind]
    cases (first value).result with
    | error error => rfl
    | ok value => simp

theorem follow_bind {γ : Type} (outcome : Outcome α) (first : Except Error α → Outcome β)
    (second : β → Outcome γ) :
    (outcome.follow first).bind second
      = outcome.follow fun reply => (first reply).bind second := by
  simp only [follow, bind]
  cases (first outcome.result).result with
  | error error => rfl
  | ok value => simp

/-- To go on with nothing but the failure after a failure is to end there. -/
theorem follow_eq_bind {outcome : Outcome α} {next : Except Error α → Outcome β}
    (h : ∀ error, next (.error error) = fail error) :
    outcome.follow next = outcome.bind fun value => next (.ok value) := by
  obtain ⟨events, result⟩ := outcome
  cases result with
  | error error => simp [follow, bind, h, fail]
  | ok value => rfl

/-- The outcome with its result read further. -/
def read (outcome : Outcome α) (reading : α → Except Error β) : Outcome β :=
  ⟨outcome.events, outcome.result.bind reading⟩

/-- The outcome of a request to an operator, with the events of asking and answering. -/
def traced (place : Place) (operator : Plan) (request : Request)
    (outcome : Outcome (Option Answer)) : Outcome (Option Answer) :=
  ⟨.asked place operator request :: outcome.events ++ [.answered place request outcome.result],
    outcome.result⟩

end Outcome

/-! ### Running an inquiry -/

/-- Where the questions of an inquiry are answered. -/
structure Replies where
  /-- Answers a request to an input. -/
  input : Nat → Request → Outcome (Option Answer)
  /-- Answers the question for the operator's own unique keys. -/
  ownKeys : Bool → Outcome (Option Answer)

/-- Runs an inquiry: every question gets its reply, and the inquiry goes on from there. -/
def Inquiry.run {α : Type} (replies : Replies) : Inquiry α → Outcome α
  | done value => .done value
  | fail error => .fail error
  | askInput input request resume =>
    (replies.input input request).follow fun reply => (resume reply).run replies
  | askOwnKeys ignoreNulls resume =>
    (replies.ownKeys ignoreNulls).follow fun reply => (resume reply).run replies

/-- An inquiry that goes on is run by running what comes first, then what follows its result. -/
theorem Inquiry.run_bind {α β : Type} (replies : Replies) (inquiry : Inquiry α)
    (next : α → Inquiry β) :
    (inquiry.bind next).run replies
      = (inquiry.run replies).bind fun value => (next value).run replies := by
  induction inquiry with
  | done value => rfl
  | fail error => rfl
  | askInput input request resume ih =>
    simp only [bind, run, Outcome.follow_bind]
    congr 1
    funext reply
    exact ih reply
  | askOwnKeys ignoreNulls resume ih =>
    simp only [bind, run, Outcome.follow_bind]
    congr 1
    funext reply
    exact ih reply

section

variable (replies : Replies) (input : Nat) (columns : ColumnSet) (ignoreNulls : Bool)

theorem Inquiry.run_keysOfInput :
    (keysOfInput input ignoreNulls).run replies
      = (replies.input input (.uniqueKeys ignoreNulls)).bind fun reply =>
          (ofExcept (Answer.asKeys Request.uniqueKeysQuery reply)).run replies :=
  Outcome.follow_eq_bind fun _ => rfl

theorem Inquiry.run_columnsUniqueOfInput :
    (columnsUniqueOfInput input columns ignoreNulls).run replies
      = (replies.input input (.columnsUnique columns ignoreNulls)).bind fun reply =>
          (ofExcept (Answer.asBool Request.columnsUniqueQuery reply)).run replies :=
  Outcome.follow_eq_bind fun _ => rfl

theorem Inquiry.run_ownKeys :
    (ownKeys ignoreNulls).run replies
      = (replies.ownKeys ignoreNulls).bind fun reply =>
          (ofExcept (Answer.asKeys Request.uniqueKeysQuery reply)).run replies :=
  Outcome.follow_eq_bind fun _ => rfl

end

/-! ### Providers -/

/-- A source of answers about operators. -/
inductive Provider where
  | table (table : HandlerTable)
  /-- The first member that knows something is believed. -/
  | chain (members : List Provider)

namespace Provider

mutual

/-- What a provider makes of a request about an operator. In a chain a member is consulted only if
those before it know nothing; a failure ends the search. -/
def consult (replies : Replies) (plan : Plan) (request : Request) :
    Provider → Outcome (Option Answer)
  | table t => (t.inquiry plan request).run replies
  | chain members => consultAll replies plan request members

/-- What the first provider that knows something makes of a request. -/
def consultAll (replies : Replies) (plan : Plan) (request : Request) :
    List Provider → Outcome (Option Answer)
  | [] => .done none
  | member :: members =>
    (consult replies plan request member).bind fun
      | some answer => .done (some answer)
      | none => consultAll replies plan request members

end

/-- Answers a request to an operator, given how its inputs answer theirs. An input that is not
there knows nothing. While unique keys are asked for, the operator's own unique keys are what is
being found out, so nothing is known of them yet. -/
def answerAt (p : Provider) (plan : Plan)
    (inputs : List (Place → Request → Outcome (Option Answer))) (place : Place)
    (request : Request) : Outcome (Option Answer) :=
  let input := fun i inner =>
    match inputs[i]? with
    | some ask => ask (place ++ [i]) inner
    | none => .done none
  let keysOnly : Replies := ⟨input, fun _ => .done none⟩
  let ownKeys := fun ignoreNulls =>
    .traced place plan (.uniqueKeys ignoreNulls)
      (p.consult keysOnly plan (.uniqueKeys ignoreNulls))
  let replies :=
    if request.query = Request.uniqueKeysQuery then keysOnly else ⟨input, ownKeys⟩
  .traced place plan request (p.consult replies plan request)

/-- Answers a request to the operator at the root of a plan, which stands at `place` in the plan
that was first asked about. -/
def answerFrom (p : Provider) : Plan → Place → Request → Outcome (Option Answer) :=
  Plan.fold p.answerAt

/-- The answer to a request is made of the answers of the inputs. -/
theorem answerFrom_eq (p : Provider) (plan : Plan) :
    p.answerFrom plan = p.answerAt plan (plan.inputs.map p.answerFrom) :=
  Plan.fold_eq p.answerAt plan

/-- Answers a request to the operator at the root of a plan. -/
def answer (p : Provider) (plan : Plan) (request : Request) : Outcome (Option Answer) :=
  p.answerFrom plan [] request

/-- How a provider answers the questions of a rule that is applied to the root of a plan. -/
def replies (p : Provider) (plan : Plan) : Replies where
  input i request :=
    match plan.inputs[i]? with
    | some input => p.answerFrom input [i] request
    | none => .done none
  ownKeys ignoreNulls := p.answerFrom plan [] (.uniqueKeys ignoreNulls)

/-- The unique keys of an operator: sets of columns in which no two of its rows agree. Without an
answer nothing is known, which is not the same as having no key. -/
def uniqueKeys (p : Provider) (plan : Plan) (ignoreNulls : Bool) : Outcome (Option KeySet) :=
  (p.answer plan (.uniqueKeys ignoreNulls)).read (Answer.asKeys Request.uniqueKeysQuery)

/-- Whether no two rows of an operator agree in the given columns, if that is known. -/
def columnsUnique (p : Provider) (plan : Plan) (columns : ColumnSet) (ignoreNulls : Bool) :
    Outcome (Option Bool) :=
  (p.answer plan (.columnsUnique columns ignoreNulls)).read
    (Answer.asBool Request.columnsUniqueQuery)

end Provider

end QueryAnalysis
