import QueryAnalysis.Proofs.Metadata.Questions
import QueryAnalysis.Proofs.Metadata.Soundness

/-!
# No rule swallows an error

A request that fails ends everything: the requests on whose behalf it was made fail with the same
error, one after the other, and no further request is made (`Outcome.StopsAtFailure`). The property
holds of outcomes without events and is kept by going on, so it holds of a whole run if it holds of
the replies, and by induction of every answer of a provider whose rules pass failures on
(`Provider.stopsAtFailure_answerFrom`).

Two more ways in which an error could get lost are closed as well. In a chain no table is consulted
after one that failed (`Provider.exists_failsAt`). And a rule that reads the answers to its questions
fails just as well if one is of the wrong kind (`Inquiry.AsksOnly.ends_of_puts`), which then is the
failure of the request. All built-in rules are such rules, and among the ready-made ones those that
do not just pass on whatever an input answers (`HandlerTable.passesTypedFailuresOn_of_replies`).
-/

namespace QueryAnalysis

variable {α β : Type}

/-! ### Outcomes that stop at a failure -/

/-- The error of a request that failed. -/
def Event.failure? : Event → Option Error
  | .asked _ _ _ => none
  | .answered _ _ (.ok _) => none
  | .answered _ _ (.error error) => some error

namespace Outcome

/-- Once a request has failed, nothing happens but that others fail with the same error, and that is
the result. -/
def StopsAtFailure (outcome : Outcome α) : Prop :=
  ∀ before event after error, outcome.events = before ++ event :: after →
    event.failure? = some error →
    outcome.result = .error error ∧ ∀ later ∈ after, later.failure? = some error

theorem stopsAtFailure_of_events_eq_nil {outcome : Outcome α} (h : outcome.events = []) :
    outcome.StopsAtFailure := by
  intro before event after error hevents
  rw [h] at hevents
  exact absurd hevents.symm (by simp)

theorem StopsAtFailure.bind {outcome : Outcome α} {next : α → Outcome β}
    (h : outcome.StopsAtFailure) (hnext : ∀ value, (next value).StopsAtFailure) :
    (outcome.bind next).StopsAtFailure := by
  intro before event after error hevents hfailure
  cases hresult : outcome.result with
  | error error' =>
      rw [bind_of_error hresult] at hevents ⊢
      obtain ⟨herror, hafter⟩ := h before event after error hevents hfailure
      exact ⟨congrArg Except.error (Except.error.inj (hresult.symm.trans herror)), hafter⟩
  | ok value =>
      rw [bind_of_ok hresult] at hevents ⊢
      rcases append_eq_append_cons_cases hevents with ⟨rest, hfirst, -⟩ | ⟨rest, -, hsecond⟩
      · -- Something went on, so nothing had failed before.
        have herror := (h before event rest error hfirst hfailure).1
        exact absurd (hresult.symm.trans herror) (by simp)
      · exact hnext value rest event after error hsecond hfailure

theorem invariant_stopsAtFailure : Invariant @StopsAtFailure where
  done _ := stopsAtFailure_of_events_eq_nil rfl
  fail _ := stopsAtFailure_of_events_eq_nil rfl
  bind h hnext := h.bind hnext

theorem StopsAtFailure.read {outcome : Outcome α} (h : outcome.StopsAtFailure)
    (reading : α → Except Error β) : (outcome.read reading).StopsAtFailure := by
  intro before event after error hevents hfailure
  obtain ⟨hresult, hafter⟩ := h before event after error hevents hfailure
  exact ⟨by rw [Outcome.read, hresult]; rfl, hafter⟩

/-- A request is answered with the failure that ended what was done for it. -/
theorem StopsAtFailure.traced {outcome : Outcome (Option Answer)} (h : outcome.StopsAtFailure)
    (place : Place) (operator : Plan) (request : Request) :
    (Outcome.traced place operator request outcome).StopsAtFailure := by
  intro before event after error hevents hfailure
  rcases append_eq_append_cons_cases hevents with ⟨rest, hinside, rfl⟩ | ⟨rest, -, hlast⟩
  · cases before with
    | nil =>
        obtain ⟨rfl, -⟩ := List.cons.inj hinside
        exact absurd hfailure (by simp [Event.failure?])
    | cons _ before =>
        obtain ⟨hresult, hrest⟩ := h before event rest error (List.cons.inj hinside).2 hfailure
        refine ⟨hresult, List.forall_mem_append.mpr ⟨hrest, ?_⟩⟩
        rw [List.forall_mem_singleton, hresult, Event.failure?]
  · obtain ⟨rfl, hlast⟩ := List.append_eq_singleton_iff.mp hlast.symm |>.resolve_right (by simp)
    obtain ⟨rfl, rfl⟩ := List.cons.inj hlast
    refine ⟨?_, List.forall_mem_nil _⟩
    rw [result_traced]
    cases hresult : outcome.result with
    | ok answer => exact absurd hfailure (by simp [Event.failure?, hresult])
    | error error' =>
        rw [hresult] at hfailure
        exact congrArg Except.error (Option.some.inj hfailure)

end Outcome

/-! ### Questions that fail -/

namespace Inquiry

/-- In the course of its run the inquiry puts the question. -/
inductive Puts (replies : Replies) : Inquiry α → Question → Prop
  | input {i : Nat} {request : Request} {resume : Except Error (Option Answer) → Inquiry α} :
      Puts replies (.askInput i request resume) (.input i request)
  | ownKeys {ignoreNulls : Bool} {resume : Except Error (Option Answer) → Inquiry α} :
      Puts replies (.askOwnKeys ignoreNulls resume) (.ownKeys ignoreNulls)
  | afterInput {i : Nat} {request : Request} {resume : Except Error (Option Answer) → Inquiry α}
      {question : Question} :
      Puts replies (resume (replies.input i request).result) question →
      Puts replies (.askInput i request resume) question
  | afterOwnKeys {ignoreNulls : Bool} {resume : Except Error (Option Answer) → Inquiry α}
      {question : Question} :
      Puts replies (resume (replies.ownKeys ignoreNulls).result) question →
      Puts replies (.askOwnKeys ignoreNulls resume) question

end Inquiry

/-- The reply to a question. -/
def Replies.reply (replies : Replies) : Question → Outcome (Option Answer)
  | .input i request => replies.input i request
  | .ownKeys ignoreNulls => replies.ownKeys ignoreNulls

/-- To go on with a failure is to end there. -/
theorem Outcome.follow_of_fail {outcome : Outcome α} {next : Except Error α → Outcome β}
    {error : Error} (h : next outcome.result = fail error) :
    outcome.follow next = ⟨outcome.events, .error error⟩ := by
  rw [follow, h, fail, List.append_nil]

namespace Inquiry.AsksOnly

variable {P : Question → Prop}

/-- What an inquiry does after a question asks only such questions, also after a failure. -/
theorem resume {resume : Except Error (Option Answer) → Inquiry α} {question : Question}
    (hfails : ∀ reply error, question.typedFailure? reply = some error → resume reply = .fail error)
    (hok : ∀ reply, (resume (.ok reply)).AsksOnly Question.typedFailure? P)
    (reply : Except Error (Option Answer)) :
    (resume reply).AsksOnly Question.typedFailure? P := by
  cases reply with
  | ok answer => exact hok answer
  | error error =>
      rw [hfails (.error error) error rfl]
      exact .fail error

/-- An inquiry whose question has a reply that is a failure ends with the error, and nothing happens
after the reply. -/
theorem ends_of_puts {replies : Replies} {inquiry : Inquiry α} {question : Question} {error : Error}
    (h : inquiry.AsksOnly Question.typedFailure? P) (hputs : inquiry.Puts replies question)
    (hfailure : question.typedFailure? (replies.reply question).result = some error) :
    (inquiry.run replies).result = .error error ∧
      (replies.reply question).events <:+ (inquiry.run replies).events := by
  induction hputs with
  | @input i request resume =>
      cases h with
      | askInput _ hfails _ =>
          have hfail : resume (replies.input i request).result = .fail error := hfails _ _ hfailure
          rw [run, Outcome.follow_of_fail (by rw [hfail, run])]
          exact ⟨rfl, List.suffix_rfl⟩
  | @ownKeys ignoreNulls resume =>
      cases h with
      | askOwnKeys _ hfails _ =>
          have hfail : resume (replies.ownKeys ignoreNulls).result = .fail error :=
            hfails _ _ hfailure
          rw [run, Outcome.follow_of_fail (by rw [hfail, run])]
          exact ⟨rfl, List.suffix_rfl⟩
  | afterInput _ ih =>
      cases h with
      | askInput _ hfails hok =>
          obtain ⟨hresult, hsuffix⟩ := ih (resume hfails hok _) hfailure
          exact ⟨hresult, hsuffix.trans (List.suffix_append _ _)⟩
  | afterOwnKeys _ ih =>
      cases h with
      | askOwnKeys _ hfails hok =>
          obtain ⟨hresult, hsuffix⟩ := ih (resume hfails hok _) hfailure
          exact ⟨hresult, hsuffix.trans (List.suffix_append _ _)⟩

end Inquiry.AsksOnly

/-! ### Chains -/

namespace Provider

/-- The consultation of tables fails with one of them. Those before it know nothing, and whichever
tables come after it, they are not consulted. -/
structure FailsAt (replies : Replies) (plan : Plan) (request : Request) (error : Error)
    (ts before : List HandlerTable) (t : HandlerTable) (after : List HandlerTable) : Prop where
  split : ts = before ++ t :: after
  unknown : ∀ s ∈ before, ((s.inquiry plan request).run replies).result = .ok none
  failure : ((t.inquiry plan request).run replies).result = .error error
  unconsulted : ∀ others, consultAll replies plan request (ts.map .table)
    = consultAll replies plan request ((before ++ t :: others).map .table)

theorem exists_failsAt {replies : Replies} {plan : Plan} {request : Request} {error : Error}
    {ts : List HandlerTable}
    (h : (consultAll replies plan request (ts.map .table)).result = .error error) :
    ∃ before t after, FailsAt replies plan request error ts before t after := by
  induction ts with
  | nil => exact absurd h (by simp [consultAll, Outcome.done])
  | cons t ts ih =>
      rw [List.map_cons, consultAll, consult] at h
      cases hresult : ((t.inquiry plan request).run replies).result with
      | error error' =>
          rw [Outcome.bind_of_error hresult] at h
          rw [Except.error.inj h] at hresult
          refine ⟨[], t, ts, rfl, List.forall_mem_nil _, hresult, fun others => ?_⟩
          rw [List.nil_append, List.map_cons, List.map_cons, consultAll, consultAll, consult,
            Outcome.bind_of_error hresult, Outcome.bind_of_error hresult]
      | ok reply =>
          rw [Outcome.bind_of_ok hresult] at h
          cases reply with
          | some answer => exact absurd h (by simp [Outcome.done])
          | none =>
              obtain ⟨before, s, after, hfails⟩ := ih h
              refine ⟨t :: before, s, after, congrArg (t :: ·) hfails.split, ?_, hfails.failure, ?_⟩
              · exact List.forall_mem_cons.mpr ⟨hresult, hfails.unknown⟩
              · intro others
                rw [List.cons_append, List.map_cons, List.map_cons, consultAll, consultAll, consult,
                  Outcome.bind_of_ok hresult, Outcome.bind_of_ok hresult, hfails.unconsulted others]

/-- A table that fails is the failure of all if those before it know nothing. -/
theorem result_consultAll_of_failure {replies : Replies} {plan : Plan} {request : Request}
    {error : Error} {before : List HandlerTable} {t : HandlerTable} (after : List HandlerTable)
    (hunknown : ∀ s ∈ before, ((s.inquiry plan request).run replies).result = .ok none)
    (hfailure : ((t.inquiry plan request).run replies).result = .error error) :
    (consultAll replies plan request ((before ++ t :: after).map .table)).result
      = .error error := by
  induction before with
  | nil =>
      rw [List.nil_append, List.map_cons, consultAll, consult, Outcome.bind_of_error hfailure]
  | cons s before ih =>
      obtain ⟨hs, hunknown⟩ := List.forall_mem_cons.mp hunknown
      rw [List.cons_append, List.map_cons, consultAll, consult, Outcome.result_bind_of_ok hs]
      exact ih hunknown

/-! ### Whole answers -/

/-- However deep the failure lies, an answer stops at it. -/
theorem stopsAtFailure_answerFrom {p : Provider} (h : ∀ t ∈ p.tables, t.PassesFailuresOn)
    (plan : Plan) (place : Place) (request : Request) :
    (p.answerFrom plan place request).StopsAtFailure := by
  induction plan, place, request using answer_induction with
  | step plan place request hinputs hown =>
      rw [answerFrom_eq_consult]
      refine Outcome.StopsAtFailure.traced ?_ place plan request
      refine Outcome.invariant_stopsAtFailure.consult_repliesTo h ?_ ?_
      · intro i inner input _ hinput
        exact hinputs i input inner hinput
      · intro ignoreNulls _ hquery
        exact hown hquery ignoreNulls

/-- **No rule swallows an error.** In a provider that is made of the built-in ones and of tables
whose rules pass failures on, a failed request is the end: whatever was to be found out fails with
the same error and no further request is made. The table that fails is the last one that is
consulted. And whichever table it stands in, a rule that reads the answers to its questions, as all
built-in rules do, fails on the spot if one is of the wrong kind, as with a failed question; if the
tables before it know nothing, the request fails with it. -/
theorem failures_are_final {p : Provider} (h : p.BuiltWith HandlerTable.PassesFailuresOn) :
    (∀ plan request, (p.answer plan request).StopsAtFailure) ∧
      (∀ plan ignoreNulls, (p.uniqueKeys plan ignoreNulls).StopsAtFailure) ∧
      (∀ plan columns ignoreNulls, (p.columnsUnique plan columns ignoreNulls).StopsAtFailure) ∧
      (∀ plan place request error, (p.answerFrom plan place request).result = .error error →
        ∃ before t after,
          FailsAt (p.repliesTo plan place request) plan request error p.tables before t after) ∧
      (∀ (t : HandlerTable) plan request replies question error,
        (t.inquiry plan request).PassesTypedFailuresOn →
        (t.inquiry plan request).Puts replies question →
        question.typedFailure? (replies.reply question).result = some error →
        ((t.inquiry plan request).run replies).result = .error error ∧
          (replies.reply question).events <:+ ((t.inquiry plan request).run replies).events ∧
          ∀ before after place, p.tables = before ++ t :: after →
            replies = p.repliesTo plan place request →
            (∀ s ∈ before, ((s.inquiry plan request).run replies).result = .ok none) →
            (p.answerFrom plan place request).result = .error error) ∧
      ∀ limit, ∀ t ∈ (builtin limit).tables, ∀ plan request,
        (t.inquiry plan request).PassesTypedFailuresOn := by
  have hstops := stopsAtFailure_answerFrom h.passesFailuresOn
  refine ⟨?_, ?_, ?_, ?_, ?_, ?_⟩
  · intro plan request
    exact hstops plan [] request
  · intro plan ignoreNulls
    exact (hstops plan [] _).read _
  · intro plan columns ignoreNulls
    exact (hstops plan [] _).read _
  · intro plan place request error herror
    rw [answerFrom_eq_consult, Outcome.result_traced, consult_eq_consultAll] at herror
    exact exists_failsAt herror
  · intro t plan request replies question error hpasses hputs hfailure
    obtain ⟨hresult, hevents⟩ := hpasses.ends_of_puts hputs hfailure
    refine ⟨hresult, hevents, fun before after place htables hreplies hunknown => ?_⟩
    rw [answerFrom_eq_consult, Outcome.result_traced, consult_eq_consultAll, htables, ← hreplies]
    exact result_consultAll_of_failure after hunknown hresult
  · intro limit t ht plan request
    have hbuilt : (builtin limit).BuiltWith fun _ => False := .builtin limit
    have hhandsOn : t.HandsOn := (hbuilt.cases t ht).resolve_left id
    exact (hhandsOn.inquiry plan request).mono fun _ _ => trivial

end Provider

/-- A ready-made handler reads the answers to its questions, unless it passes requests on. -/
theorem Reply.passesTypedFailuresOn {reply : Reply} (h : ∀ input, reply ≠ .passOn input)
    (query : String) (plan : Plan) (args : List Arg) :
    (reply.handler query plan args).PassesTypedFailuresOn := by
  cases reply with
  | firstArgument =>
      simp only [handler]
      split
      · exact .done _
      · exact .done _
      · exact .done _
  | passOn input => exact absurd rfl (h input)
  | keysOfInput input =>
      have hasks := (Inquiry.handsOn_keysOfInput true input).mono fun _ _ => trivial
      exact hasks.bind fun _ => .done _
  | failure error => exact .fail error
  | _ => exact .done _

/-- Ready-made handlers pass failures on. -/
theorem Reply.asksOnly (reply : Reply) (query : String) (plan : Plan) (args : List Arg) :
    (reply.handler query plan args).AsksOnly Question.failure? fun _ => True := by
  cases reply with
  | passOn input =>
      refine .askInput trivial (fun reply error hfailure => ?_) fun reply => .ofExcept _
      cases reply with
      | ok answer => exact absurd hfailure (by simp [Question.failure?])
      | error error' => exact congrArg Inquiry.fail (Option.some.inj hfailure)
  | _ => exact (Reply.passesTypedFailuresOn (by simp) query plan args).of_typed

/-- Tables of ready-made handlers are among those whose rules pass failures on. -/
theorem HandlerTable.passesFailuresOn_of_replies {t : HandlerTable}
    (h : ∀ entry ∈ t.handlers, ∃ reply query, entry.2 = Reply.handler reply query) :
    t.PassesFailuresOn := by
  intro entry hentry plan args
  obtain ⟨reply, query, hhandler⟩ := h entry hentry
  rw [hhandler]
  exact reply.asksOnly query plan args

/-- For a query and an operator a table reads the answers to its questions if the rules that are
registered for them do, whatever rules it has otherwise. -/
theorem HandlerTable.passesTypedFailuresOn_of_replies {t : HandlerTable} {plan : Plan}
    {request : Request}
    (h : ∀ entry ∈ t.handlers, entry.1.query = request.query →
      entry.1.kind ∈ plan.kind.lineage →
      ∃ reply query, entry.2 = Reply.handler reply query ∧ ∀ input, reply ≠ .passOn input) :
    (t.inquiry plan request).PassesTypedFailuresOn := by
  rcases t.inquiry_cases plan request with
    ⟨entry, hentry, hquery, hkind, hinquiry⟩ | hinquiry | ⟨error, hinquiry⟩
  · obtain ⟨reply, query, hhandler, hreads⟩ := h entry hentry hquery hkind
    rw [hinquiry, hhandler]
    exact Reply.passesTypedFailuresOn hreads query plan request.args
  · exact hinquiry ▸ .done none
  · exact hinquiry ▸ .fail error

/-- A table whose rule for scans fails and whose rule for written rows answers a question for keys
with a truth value. Its rule for limits passes requests on, and its rule for unions asks for the keys
of the first input. -/
def brokenCatalog : HandlerTable where
  name := "catalog"
  parameters := [(Request.uniqueKeysQuery, [.bool])]
  handlers :=
    [(⟨Request.uniqueKeysQuery, .scan, [.bool]⟩,
        (Reply.failure (.rule "no catalog")).handler Request.uniqueKeysQuery),
      (⟨Request.uniqueKeysQuery, .limit, [.bool]⟩,
        (Reply.passOn 0).handler Request.uniqueKeysQuery),
      (⟨Request.uniqueKeysQuery, .union, [.bool]⟩,
        (Reply.keysOfInput 0).handler Request.uniqueKeysQuery),
      (⟨Request.uniqueKeysQuery, .values, [.bool]⟩,
        Reply.firstArgument.handler Request.uniqueKeysQuery)]

theorem brokenCatalog_passesFailuresOn : brokenCatalog.PassesFailuresOn := by
  refine HandlerTable.passesFailuresOn_of_replies ?_
  simp only [brokenCatalog, List.forall_mem_cons]
  exact ⟨⟨_, _, rfl⟩, ⟨_, _, rfl⟩, ⟨_, _, rfl⟩, ⟨_, _, rfl⟩, List.forall_mem_nil _⟩

/-- The failure of the scan passes through a built-in rule and a rule of the table. A truth value in
place of keys is passed through by the rule for limits, but not by the one for unions. -/
theorem failures_are_final_brokenCatalog :
    let p := Provider.chain [.table brokenCatalog, .builtin (some 64)]
    let rows := Plan.values (.anonymous 1) []
    (p.uniqueKeys (.limit (.sort orders []) 3 0) true).result = .error (.rule "no catalog") ∧
      (p.answer (.limit rows 3 0) (.uniqueKeys true)).result = .ok (some (.bool true)) ∧
      (p.answer (.union [rows] true (.anonymous 1)) (.uniqueKeys true)).result
        = .error (.answerKind "unique_keys" (.bool true)) := by
  intro p rows
  have hbuilt : p.BuiltWith HandlerTable.PassesFailuresOn := by
    refine .chain ?_
    rw [List.forall_mem_cons, List.forall_mem_singleton]
    exact ⟨.table brokenCatalog_passesFailuresOn, .builtin _⟩
  obtain ⟨-, hstops, -, -, hkind, -⟩ := Provider.failures_are_final hbuilt
  refine ⟨?_, rfl, ?_⟩
  · obtain ⟨hresult, -⟩ := hstops (.limit (.sort orders []) 3 0) true
      [.asked [] (.limit (.sort orders []) 3 0) (.uniqueKeys true),
        .asked [0] (.sort orders []) (.uniqueKeys true), .asked [0, 0] orders (.uniqueKeys true)]
      (.answered [0, 0] (.uniqueKeys true) (.error (.rule "no catalog")))
      [.answered [0] (.uniqueKeys true) (.error (.rule "no catalog")),
        .answered [] (.uniqueKeys true) (.error (.rule "no catalog"))]
      (.rule "no catalog") rfl rfl
    exact hresult
  · let union := Plan.union [rows] true (.anonymous 1)
    have hpasses : (brokenCatalog.inquiry union (.uniqueKeys true)).PassesTypedFailuresOn := by
      refine HandlerTable.passesTypedFailuresOn_of_replies ?_
      -- only the rule for unions is registered for a kind in the lineage of a union
      simp only [brokenCatalog, List.forall_mem_cons]
      refine ⟨fun _ hkind => absurd hkind (by decide), fun _ hkind => absurd hkind (by decide),
        fun _ _ => ⟨.keysOfInput 0, _, rfl, nofun⟩, fun _ hkind => absurd hkind (by decide),
        List.forall_mem_nil _⟩
    obtain ⟨-, -, hfails⟩ := hkind brokenCatalog union (.uniqueKeys true)
      (p.repliesTo union [] (.uniqueKeys true)) (.input 0 (.uniqueKeys true)) _ hpasses .input rfl
    exact hfails [] _ [] rfl rfl (List.forall_mem_nil _)

end QueryAnalysis
