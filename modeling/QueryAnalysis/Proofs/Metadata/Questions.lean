import QueryAnalysis.Metadata.Reply
import QueryAnalysis.Proofs.Metadata.Consultation

/-!
# What rules ask

`Inquiry.AsksOnly` bounds the questions that an inquiry can come to ask, and says for which replies
it ends with an error: at least for those that are errors themselves (`Question.failure?`). The
built-in rules ask only about unique keys and uniqueness of columns, hand on the flag that they were
given, and fail with answers of the wrong kind as well (`UniqueKeys.handsOn_table`,
`ColumnUniqueness.handsOn_table`).

What holds of outcomes without events and is kept by going on holds of every run, if it holds of the
replies to the questions that are asked (`Outcome.Invariant.run`).
-/

namespace QueryAnalysis

variable {α β : Type}

/-! ### Questions -/

/-- A question that an inquiry puts. -/
inductive Question where
  | input (input : Nat) (request : Request)
  | ownKeys (ignoreNulls : Bool)

/-- A request for unique keys or uniqueness of columns with this flag. -/
def Request.Carries (ignoreNulls : Bool) (request : Request) : Prop :=
  request = .uniqueKeys ignoreNulls ∨ ∃ columns, request = .columnsUnique columns ignoreNulls

namespace Answer

open Request

/-- The value is one that the query can have, or the query is not known. -/
def fits (query : String) : Answer → Bool
  | keys _ => query != Request.columnsUniqueQuery
  | bool _ => query != Request.uniqueKeysQuery

theorem asKeys_eq_error {answer : Answer} (h : answer.fits Request.uniqueKeysQuery = false) :
    asKeys Request.uniqueKeysQuery (some answer)
      = .error (.answerKind Request.uniqueKeysQuery answer) := by
  cases answer with
  | keys value => exact absurd h (by simp [fits, uniqueKeysQuery, columnsUniqueQuery])
  | bool value => rfl

theorem asBool_eq_error {answer : Answer} (h : answer.fits Request.columnsUniqueQuery = false) :
    asBool Request.columnsUniqueQuery (some answer)
      = .error (.answerKind Request.columnsUniqueQuery answer) := by
  cases answer with
  | keys value => rfl
  | bool value => exact absurd h (by simp [fits, uniqueKeysQuery, columnsUniqueQuery])

end Answer

namespace Question

/-- The request that is made with a question. -/
def request : Question → Request
  | input _ request => request
  | ownKeys ignoreNulls => .uniqueKeys ignoreNulls

/-- The error of a question that failed. -/
def failure? (_ : Question) : Except Error (Option Answer) → Option Error
  | .ok _ => none
  | .error error => some error

/-- The error of a question that failed, or was answered with a value that its query cannot have. -/
def typedFailure? (question : Question) : Except Error (Option Answer) → Option Error
  | .ok none => none
  | .ok (some answer) =>
    if answer.fits question.request.query then none
    else some (.answerKind question.request.query answer)
  | .error error => some error

theorem typedFailure?_of_failure? {question : Question} {reply : Except Error (Option Answer)}
    {error : Error} (h : question.failure? reply = some error) :
    question.typedFailure? reply = some error := by
  cases reply with
  | ok answer => exact absurd h (by simp [failure?])
  | error error' => exact h

/-- To fail like this is to fail, or to be answered with a value that does not fit. -/
theorem typedFailure?_cases {question : Question} {reply : Except Error (Option Answer)}
    {error : Error} (h : question.typedFailure? reply = some error) :
    reply = .error error ∨ ∃ answer, reply = .ok (some answer) ∧
      answer.fits question.request.query = false ∧
      error = .answerKind question.request.query answer := by
  match reply with
  | .error error' =>
      left
      exact congrArg Except.error (Option.some.inj h)
  | .ok none => exact absurd h (by simp [typedFailure?])
  | .ok (some answer) =>
      right
      rw [typedFailure?] at h
      split at h
      · exact absurd h (by simp)
      · next hfits => exact ⟨answer, rfl, Bool.not_eq_true _ ▸ hfits, (Option.some.inj h).symm⟩

end Question

namespace Inquiry

/-- Whatever the replies, the inquiry asks only such questions. With a reply that is a failure by
`fails`, it ends with the error. -/
inductive AsksOnly (fails : Question → Except Error (Option Answer) → Option Error)
    (P : Question → Prop) : Inquiry α → Prop
  | done (value : α) : AsksOnly fails P (.done value)
  | fail (error : Error) : AsksOnly fails P (.fail error)
  | askInput {input : Nat} {request : Request}
      {resume : Except Error (Option Answer) → Inquiry α} :
      P (.input input request) →
      (∀ reply error, fails (.input input request) reply = some error →
        resume reply = .fail error) →
      (∀ reply, AsksOnly fails P (resume (.ok reply))) →
      AsksOnly fails P (.askInput input request resume)
  | askOwnKeys {ignoreNulls : Bool} {resume : Except Error (Option Answer) → Inquiry α} :
      P (.ownKeys ignoreNulls) →
      (∀ reply error, fails (.ownKeys ignoreNulls) reply = some error →
        resume reply = .fail error) →
      (∀ reply, AsksOnly fails P (resume (.ok reply))) →
      AsksOnly fails P (.askOwnKeys ignoreNulls resume)

namespace AsksOnly

variable {fails : Question → Except Error (Option Answer) → Option Error} {P Q : Question → Prop}
  {inquiry : Inquiry α} {ignoreNulls : Bool}

theorem mono (h : inquiry.AsksOnly fails P) (hPQ : ∀ question, P question → Q question) :
    inquiry.AsksOnly fails Q := by
  induction h with
  | done value => exact .done value
  | fail error => exact .fail error
  | askInput hP hfails _ ih => exact .askInput (hPQ _ hP) hfails ih
  | askOwnKeys hP hfails _ ih => exact .askOwnKeys (hPQ _ hP) hfails ih

/-- What fails with answers of the wrong kind fails with errors. -/
theorem of_typed (h : inquiry.AsksOnly Question.typedFailure? P) :
    inquiry.AsksOnly Question.failure? P := by
  induction h with
  | done value => exact .done value
  | fail error => exact .fail error
  | askInput hP hfails _ ih =>
      refine .askInput hP (fun reply error herror => ?_) ih
      exact hfails reply error (Question.typedFailure?_of_failure? herror)
  | askOwnKeys hP hfails _ ih =>
      refine .askOwnKeys hP (fun reply error herror => ?_) ih
      exact hfails reply error (Question.typedFailure?_of_failure? herror)

theorem bind {next : α → Inquiry β} (h : inquiry.AsksOnly fails P)
    (hnext : ∀ value, (next value).AsksOnly fails P) : (inquiry.bind next).AsksOnly fails P := by
  induction h with
  | done value => exact hnext value
  | fail error => exact .fail error
  | askInput hP hfails _ ih =>
      refine .askInput hP (fun reply error herror => ?_) ih
      rw [hfails reply error herror, Inquiry.bind]
  | askOwnKeys hP hfails _ ih =>
      refine .askOwnKeys hP (fun reply error herror => ?_) ih
      rw [hfails reply error herror, Inquiry.bind]

theorem ofExcept (result : Except Error α) : (Inquiry.ofExcept result).AsksOnly fails P := by
  cases result with
  | ok value => exact .done value
  | error error => exact .fail error

/-- Arguments are read without asking; a flag that is found is one of them. -/
theorem bind_boolArg {args : List Arg} {position : Nat} {next : Bool → Inquiry α}
    (h : ∀ flag, .bool flag ∈ args → (next flag).AsksOnly fails P) :
    ((Inquiry.boolArg args position).bind next).AsksOnly fails P := by
  unfold Inquiry.boolArg
  split
  · next flag hflag => exact h flag (List.mem_of_getElem? hflag)
  · exact .fail _

theorem bind_columnsArg {args : List Arg} {position : Nat} {next : ColumnSet → Inquiry α}
    (h : ∀ columns, (next columns).AsksOnly fails P) :
    ((Inquiry.columnsArg args position).bind next).AsksOnly fails P := by
  unfold Inquiry.columnsArg
  split
  · next columns _ => exact h columns
  · exact .fail _

end AsksOnly

/-- The inquiry may ask anything, but a question that fails, or is answered with a value that its
query cannot have, is its end. -/
abbrev PassesTypedFailuresOn : Inquiry α → Prop :=
  AsksOnly Question.typedFailure? fun _ => True

/-- The inquiry asks only about unique keys and uniqueness of columns, with this flag, and fails
with answers of the wrong kind. -/
abbrev HandsOn (ignoreNulls : Bool) : Inquiry α → Prop :=
  AsksOnly Question.typedFailure? fun question => question.request.Carries ignoreNulls

section

variable (ignoreNulls : Bool)

theorem handsOn_keysOfInput (input : Nat) :
    (keysOfInput input ignoreNulls).HandsOn ignoreNulls := by
  refine .askInput (.inl rfl) (fun reply error herror => ?_) fun reply => .ofExcept _
  rcases Question.typedFailure?_cases herror with rfl | ⟨answer, rfl, hfits, rfl⟩
  · rfl
  · exact congrArg ofExcept (Answer.asKeys_eq_error hfits)

theorem handsOn_columnsUniqueOfInput (input : Nat) (columns : ColumnSet) :
    (columnsUniqueOfInput input columns ignoreNulls).HandsOn ignoreNulls := by
  refine .askInput (.inr ⟨columns, rfl⟩) (fun reply error herror => ?_) fun reply => .ofExcept _
  rcases Question.typedFailure?_cases herror with rfl | ⟨answer, rfl, hfits, rfl⟩
  · rfl
  · exact congrArg ofExcept (Answer.asBool_eq_error hfits)

theorem handsOn_ownKeys : (ownKeys ignoreNulls).HandsOn ignoreNulls := by
  refine .askOwnKeys (.inl rfl) (fun reply error herror => ?_) fun reply => .ofExcept _
  rcases Question.typedFailure?_cases herror with rfl | ⟨answer, rfl, hfits, rfl⟩
  · rfl
  · exact congrArg ofExcept (Answer.asKeys_eq_error hfits)

end

end Inquiry

/-! ### The rules of a table -/

namespace HandlerTable

variable {fails : Question → Except Error (Option Answer) → Option Error}
  {P Q : List Arg → Question → Prop} {t : HandlerTable}

/-- Whatever the arguments, the rules of the table ask only such questions. -/
def AsksOnly (fails : Question → Except Error (Option Answer) → Option Error)
    (P : List Arg → Question → Prop) (t : HandlerTable) : Prop :=
  ∀ entry ∈ t.handlers, ∀ plan args, (entry.2 plan args).AsksOnly fails (P args)

/-- The rules of the table may ask anything, but a question that fails is the end of the rule, with
the same error. -/
def PassesFailuresOn : HandlerTable → Prop :=
  AsksOnly Question.failure? fun _ _ => True

/-- The rules of the table answer or fail without asking. -/
def AsksNothing : HandlerTable → Prop :=
  AsksOnly Question.failure? fun _ _ => False

/-- The rules of the table ask only about unique keys and uniqueness of columns, hand on a flag from
their arguments, and fail with answers of the wrong kind. -/
def HandsOn : HandlerTable → Prop :=
  AsksOnly Question.typedFailure? fun args question =>
    ∃ ignoreNulls, .bool ignoreNulls ∈ args ∧ question.request.Carries ignoreNulls

theorem AsksOnly.mono (h : t.AsksOnly fails P)
    (hPQ : ∀ args question, P args question → Q args question) : t.AsksOnly fails Q :=
  fun entry hentry plan args => (h entry hentry plan args).mono (hPQ args)

theorem AsksOnly.of_typed (h : t.AsksOnly Question.typedFailure? P) :
    t.AsksOnly Question.failure? P :=
  fun entry hentry plan args => (h entry hentry plan args).of_typed

/-- What a table makes of a request is up to one of its rules for the query, or asks nothing. -/
theorem inquiry_cases (t : HandlerTable) (plan : Plan) (request : Request) :
    (∃ entry ∈ t.handlers, entry.1.query = request.query ∧ entry.1.kind ∈ plan.kind.lineage ∧
      t.inquiry plan request = entry.2 plan request.args) ∨
    t.inquiry plan request = .done none ∨ ∃ error, t.inquiry plan request = .fail error := by
  unfold HandlerTable.inquiry
  split
  · exact .inr (.inl rfl)
  · next tag handler hresolved =>
      split
      · obtain ⟨before, kind, after, hlineage, hfound, -⟩ :=
          List.findSome?_eq_some_iff.mp hresolved
        obtain ⟨rule, hrule, heq⟩ := Option.map_eq_some_iff.mp hfound
        obtain ⟨rfl, rfl⟩ := Prod.mk.inj heq
        obtain ⟨earlier, later, hhandlers, -⟩ := List.lookup_eq_some_iff.mp hrule
        refine .inl ⟨(_, rule), hhandlers ▸ List.mem_append_right _ List.mem_cons_self, rfl, ?_, rfl⟩
        exact hlineage ▸ List.mem_append_right _ List.mem_cons_self
      · exact .inr (.inr ⟨_, rfl⟩)

theorem AsksOnly.inquiry (h : t.AsksOnly fails P) (plan : Plan) (request : Request) :
    (t.inquiry plan request).AsksOnly fails (P request.args) := by
  rcases t.inquiry_cases plan request with
    ⟨entry, hentry, -, -, hinquiry⟩ | hinquiry | ⟨error, hinquiry⟩
  · exact hinquiry ▸ h entry hentry plan request.args
  · exact hinquiry ▸ .done none
  · exact hinquiry ▸ .fail error

end HandlerTable

namespace UniqueKeys

section

open Inquiry

variable (ignoreNulls : Bool) (plan : Plan)

theorem handsOn_scanKeys :
    (scanKeys ignoreNulls plan).HandsOn ignoreNulls := by
  cases plan with
  | scan => exact .done _
  | _ => exact .fail _

theorem handsOn_valuesKeys :
    (valuesKeys ignoreNulls plan).HandsOn ignoreNulls := by
  cases plan with
  | values => exact .done _
  | _ => exact .fail _

theorem handsOn_inputKeys :
    (inputKeys ignoreNulls plan).HandsOn ignoreNulls := by
  cases plan with
  | filter => exact handsOn_keysOfInput ignoreNulls 0
  | sort => exact handsOn_keysOfInput ignoreNulls 0
  | _ => exact .fail _

theorem handsOn_leftInputKeys :
    (leftInputKeys ignoreNulls plan).HandsOn ignoreNulls := by
  cases plan with
  | semiJoin => exact handsOn_keysOfInput ignoreNulls 0
  | correlate => exact handsOn_keysOfInput ignoreNulls 0
  | _ => exact .fail _

theorem handsOn_projectKeys :
    (projectKeys ignoreNulls plan).HandsOn ignoreNulls := by
  cases plan with
  | project input columns schema =>
      rw [projectKeys]
      split
      · exact .done _
      · exact (handsOn_keysOfInput ignoreNulls 0).bind fun keys => .done _
  | _ => exact .fail _

theorem handsOn_uniqueOn (input : Nat) (keys : Option KeySet) (columns : ColumnSet) :
    (uniqueOn input keys columns ignoreNulls).HandsOn ignoreNulls := by
  cases keys with
  | none => exact handsOn_columnsUniqueOfInput ignoreNulls input columns
  | some known => exact .done _

theorem handsOn_joinKeys (limit : Option Nat) :
    (joinKeys limit ignoreNulls plan).HandsOn ignoreNulls := by
  cases plan with
  | join left right kind condition schema =>
      refine (handsOn_keysOfInput ignoreNulls 0).bind fun leftKeys => ?_
      refine (handsOn_keysOfInput ignoreNulls 1).bind fun rightKeys => ?_
      split
      · exact .done none
      · refine (handsOn_uniqueOn _ 0 _ _).bind fun leftUnique => ?_
        exact (handsOn_uniqueOn _ 1 _ _).bind fun rightUnique => .done _
  | _ => exact .fail _

theorem handsOn_aggregateKeys :
    (aggregateKeys ignoreNulls plan).HandsOn ignoreNulls := by
  cases plan with
  | aggregate => exact .done _
  | _ => exact .fail _

theorem handsOn_unknownKeys :
    (unknownKeys ignoreNulls plan).HandsOn ignoreNulls :=
  .done none

end

theorem handsOn_rules (limit : Option Nat) : ∀ entry ∈ rules limit, ∀ ignoreNulls plan,
    (entry.2 ignoreNulls plan).HandsOn ignoreNulls := by
  simp only [rules, List.forall_mem_cons]
  exact ⟨handsOn_scanKeys, handsOn_valuesKeys, handsOn_inputKeys, handsOn_inputKeys,
    handsOn_leftInputKeys, handsOn_leftInputKeys, handsOn_projectKeys,
    fun ignoreNulls plan => handsOn_joinKeys ignoreNulls plan limit, handsOn_aggregateKeys,
    handsOn_unknownKeys, List.forall_mem_nil _⟩

/-- The rules for unique keys hand on the flag among their arguments. -/
theorem handsOn_table (limit : Option Nat) : (table limit).HandsOn := by
  intro entry hentry plan args
  obtain ⟨⟨kind, rule⟩, hrule, rfl⟩ := List.mem_map.mp hentry
  refine .bind_boolArg fun ignoreNulls hflag => ?_
  have hasks := handsOn_rules limit _ hrule ignoreNulls plan
  exact (hasks.mono fun question hcarries => ⟨ignoreNulls, hflag, hcarries⟩).bind fun keys =>
    .done _

end UniqueKeys

namespace ColumnUniqueness

section

open Inquiry

variable (columns : ColumnSet) (ignoreNulls : Bool) (plan : Plan)

theorem handsOn_fromKeys :
    (fromKeys columns ignoreNulls plan).HandsOn ignoreNulls :=
  (handsOn_ownKeys ignoreNulls).bind fun _ => .done _

theorem handsOn_fromInput :
    (fromInput columns ignoreNulls plan).HandsOn ignoreNulls := by
  cases plan with
  | filter => exact handsOn_columnsUniqueOfInput ignoreNulls 0 columns
  | sort => exact handsOn_columnsUniqueOfInput ignoreNulls 0 columns
  | _ => exact .fail _

theorem handsOn_fromProjected :
    (fromProjected columns ignoreNulls plan).HandsOn ignoreNulls := by
  cases plan with
  | project => exact handsOn_columnsUniqueOfInput ignoreNulls 0 _
  | _ => exact .fail _

end

theorem handsOn_rules : ∀ entry ∈ rules, ∀ columns ignoreNulls plan,
    (entry.2 columns ignoreNulls plan).HandsOn ignoreNulls := by
  simp only [rules, List.forall_mem_cons]
  exact ⟨handsOn_fromKeys, handsOn_fromInput, handsOn_fromInput, handsOn_fromProjected,
    List.forall_mem_nil _⟩

/-- The rules for uniqueness of columns hand on the flag among their arguments. -/
theorem handsOn_table : table.HandsOn := by
  intro entry hentry plan args
  obtain ⟨⟨kind, rule⟩, hrule, rfl⟩ := List.mem_map.mp hentry
  refine .bind_columnsArg fun columns => .bind_boolArg fun ignoreNulls hflag => ?_
  have hasks := handsOn_rules _ hrule columns ignoreNulls plan
  exact (hasks.mono fun question hcarries => ⟨ignoreNulls, hflag, hcarries⟩).bind fun unique =>
    .done _

end ColumnUniqueness

/-! ### Providers -/

/-- A provider that is made of the built-in ones and of tables with a property, in chains. -/
inductive Provider.BuiltWith (T : HandlerTable → Prop) : Provider → Prop
  | builtin (limit : Option Nat) : BuiltWith T (.builtin limit)
  | table {t : HandlerTable} : T t → BuiltWith T (.table t)
  | chain {members : List Provider} :
      (∀ member ∈ members, BuiltWith T member) → BuiltWith T (.chain members)

/-- The tables of such a provider are of that kind, or hand requests on. -/
theorem Provider.BuiltWith.cases {T : HandlerTable → Prop} {p : Provider} (h : p.BuiltWith T) :
    ∀ t ∈ p.tables, T t ∨ t.HandsOn := by
  induction h with
  | builtin limit =>
      rw [tables_builtin, List.forall_mem_cons, List.forall_mem_singleton]
      exact ⟨.inr (UniqueKeys.handsOn_table limit), .inr ColumnUniqueness.handsOn_table⟩
  | table ht =>
      rw [tables_table, List.forall_mem_singleton]
      exact .inl ht
  | chain _ ih =>
      intro t ht
      rw [tables_chain] at ht
      obtain ⟨member, hmember, ht⟩ := List.mem_flatMap.mp ht
      exact ih member hmember t ht

/-- Among rules that ask nothing the built-in ones are the only ones to ask. -/
theorem Provider.BuiltWith.asksOnly_flagged {p : Provider}
    (h : p.BuiltWith HandlerTable.AsksNothing) :
    ∀ t ∈ p.tables, t.AsksOnly Question.failure? fun args question =>
      ∃ ignoreNulls, .bool ignoreNulls ∈ args ∧ question.request.Carries ignoreNulls := by
  intro t ht
  rcases h.cases t ht with hnothing | hhandsOn
  · exact hnothing.mono fun _ _ => False.elim
  · exact hhandsOn.of_typed

theorem Provider.BuiltWith.passesFailuresOn {p : Provider}
    (h : p.BuiltWith HandlerTable.PassesFailuresOn) : ∀ t ∈ p.tables, t.PassesFailuresOn := by
  intro t ht
  rcases h.cases t ht with hpasses | hhandsOn
  · exact hpasses
  · exact hhandsOn.of_typed.mono fun _ _ _ => trivial

/-! ### Runs -/

/-- What holds of outcomes without events, and is kept by going on. -/
structure Outcome.Invariant (Q : {α : Type} → Outcome α → Prop) : Prop where
  done : ∀ {α : Type} (value : α), Q (Outcome.done value)
  fail : ∀ {α : Type} (error : Error), Q (Outcome.fail error : Outcome α)
  bind : ∀ {α β : Type} {outcome : Outcome α} {next : α → Outcome β},
    Q outcome → (∀ value, Q (next value)) → Q (outcome.bind next)

namespace Outcome.Invariant

variable {Q : {α : Type} → Outcome α → Prop} {replies : Replies}

/-- Such a property holds of a run if it holds of the replies to the questions that are asked. -/
theorem run (hQ : Invariant Q) {P : Question → Prop} {inquiry : Inquiry α}
    (h : inquiry.AsksOnly Question.failure? P)
    (hinput : ∀ i request, P (.input i request) → Q (replies.input i request))
    (hown : ∀ ignoreNulls, P (.ownKeys ignoreNulls) → Q (replies.ownKeys ignoreNulls)) :
    Q (inquiry.run replies) := by
  induction h with
  | done value => exact hQ.done value
  | fail error => exact hQ.fail error
  | askInput hP hfails _ ih =>
      rw [Inquiry.run, follow_eq_bind fun error => by rw [hfails _ error rfl, Inquiry.run]]
      exact hQ.bind (hinput _ _ hP) ih
  | askOwnKeys hP hfails _ ih =>
      rw [Inquiry.run, follow_eq_bind fun error => by rw [hfails _ error rfl, Inquiry.run]]
      exact hQ.bind (hown _ hP) ih

theorem consultAll (hQ : Invariant Q) {plan : Plan} {request : Request} {ts : List HandlerTable}
    (h : ∀ t ∈ ts, Q ((t.inquiry plan request).run replies)) :
    Q (Provider.consultAll replies plan request (ts.map .table)) := by
  induction ts with
  | nil => exact hQ.done none
  | cons t ts ih =>
      rw [List.map_cons, Provider.consultAll, Provider.consult]
      refine hQ.bind (h t List.mem_cons_self) fun reply => ?_
      cases reply with
      | some answer => exact hQ.done _
      | none => exact ih fun t' ht' => h t' (List.mem_cons_of_mem t ht')

/-- Such a property holds of a consultation about an operator of a plan if it holds of the answers
to the questions that the rules ask. -/
theorem consult_repliesTo (hQ : Invariant Q) {P : List Arg → Question → Prop} {p : Provider}
    (h : ∀ t ∈ p.tables, t.AsksOnly Question.failure? P) {plan : Plan} {place : Place}
    {request : Request}
    (hinput : ∀ i inner input, P request.args (.input i inner) → plan.inputs[i]? = some input →
      Q (p.answerFrom input (place ++ [i]) inner))
    (hown : ∀ ignoreNulls, P request.args (.ownKeys ignoreNulls) →
      request.query ≠ Request.uniqueKeysQuery →
      Q (p.answerFrom plan place (.uniqueKeys ignoreNulls))) :
    Q (p.consult (p.repliesTo plan place request) plan request) := by
  rw [Provider.consult_eq_consultAll]
  refine hQ.consultAll fun t ht => hQ.run ((h t ht).inquiry plan request) ?_ ?_
  · intro i inner hasked
    simp only [Provider.repliesTo, Provider.inputReplies]
    split
    · next input hi => exact hinput i inner input hasked hi
    · exact hQ.done none
  · intro ignoreNulls hasked
    simp only [Provider.repliesTo]
    split
    · exact hQ.done none
    · next hquery => exact hown ignoreNulls hasked hquery

end Outcome.Invariant

end QueryAnalysis
