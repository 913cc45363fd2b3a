import QueryAnalysis.Error

/-!
# Inquiries

A rule that answers a request may want to know something else first: about an input of its
operator, or the unique keys of the operator itself. `Inquiry` is the rule's course as a value. It
ends with a result or an error, or it puts one question and goes on once it has the reply, which is
an error if the question failed. What a rule makes of a failed question is its own affair; the
questions that are put here (`Inquiry.keysOfInput` and its kin) end the inquiry with the error.
-/

namespace QueryAnalysis

/-! ### Reading answers -/

/-- An answer read as a set of keys. -/
def Answer.asKeys (query : String) : Option Answer → Except Error (Option KeySet)
  | none => .ok none
  | some (.keys value) => .ok (some value)
  | some other => .error (.answerKind query other)

/-- An answer read as a truth value. -/
def Answer.asBool (query : String) : Option Answer → Except Error (Option Bool)
  | none => .ok none
  | some (.bool value) => .ok (some value)
  | some other => .error (.answerKind query other)

/-! ### Inquiries -/

/-- The course of a rule: a result, an error, or a question and what follows its reply. A reply
without an answer means that nothing is known. -/
inductive Inquiry (α : Type) where
  | done (value : α)
  | fail (error : Error)
  /-- Puts a request to the input with this number. -/
  | askInput (input : Nat) (request : Request)
      (resume : Except Error (Option Answer) → Inquiry α)
  /-- Asks for the unique keys of the operator itself. -/
  | askOwnKeys (ignoreNulls : Bool) (resume : Except Error (Option Answer) → Inquiry α)

namespace Inquiry

variable {α β γ : Type}

/-- Goes on with `next` once there is a result. -/
def bind : Inquiry α → (α → Inquiry β) → Inquiry β
  | done value, next => next value
  | fail error, _ => fail error
  | askInput input request resume, next =>
    askInput input request fun reply => (resume reply).bind next
  | askOwnKeys ignoreNulls resume, next =>
    askOwnKeys ignoreNulls fun reply => (resume reply).bind next

instance : Monad Inquiry where
  pure := done
  bind := bind

@[simp] theorem pure_eq (value : α) : (pure value : Inquiry α) = done value := rfl

@[simp] theorem bind_eq (inquiry : Inquiry α) (next : α → Inquiry β) :
    inquiry >>= next = inquiry.bind next := rfl

theorem bind_assoc (inquiry : Inquiry α) (first : α → Inquiry β) (second : β → Inquiry γ) :
    (inquiry.bind first).bind second = inquiry.bind fun value => (first value).bind second := by
  induction inquiry with
  | done value => rfl
  | fail error => rfl
  | askInput input request resume ih =>
    simp only [bind]
    congr 1
    funext reply
    exact ih reply
  | askOwnKeys ignoreNulls resume ih =>
    simp only [bind]
    congr 1
    funext reply
    exact ih reply

/-- Ends with a result or an error that is known already. -/
def ofExcept : Except Error α → Inquiry α
  | .ok value => done value
  | .error error => fail error

/-- Asks for the unique keys of an input. -/
def keysOfInput (input : Nat) (ignoreNulls : Bool) : Inquiry (Option KeySet) :=
  askInput input (.uniqueKeys ignoreNulls) fun reply =>
    ofExcept (reply.bind (Answer.asKeys Request.uniqueKeysQuery))

/-- Asks whether the rows of an input differ in some columns. -/
def columnsUniqueOfInput (input : Nat) (columns : ColumnSet) (ignoreNulls : Bool) :
    Inquiry (Option Bool) :=
  askInput input (.columnsUnique columns ignoreNulls) fun reply =>
    ofExcept (reply.bind (Answer.asBool Request.columnsUniqueQuery))

/-- Asks for the unique keys of the operator itself. -/
def ownKeys (ignoreNulls : Bool) : Inquiry (Option KeySet) :=
  askOwnKeys ignoreNulls fun reply =>
    ofExcept (reply.bind (Answer.asKeys Request.uniqueKeysQuery))

/-- The truth value among the arguments at a position. -/
def boolArg (args : List Arg) (position : Nat) : Inquiry Bool :=
  match args[position]? with
  | some (.bool value) => done value
  | other => fail (.noBoolArgument position other)

/-- The column set among the arguments at a position. -/
def columnsArg (args : List Arg) (position : Nat) : Inquiry ColumnSet :=
  match args[position]? with
  | some (.columns value) => done value
  | other => fail (.noColumnsArgument position other)

end Inquiry

end QueryAnalysis
