import QueryAnalysis.Proofs.Metadata.Dispatch

/-!
# Consulting providers

However chains are nested, a provider is a list of tables (`Provider.tables`) that are consulted in
order until one knows something or fails (`Provider.consult_eq_consultAll`). The inquiries of the tables
make up one inquiry of the provider (`Provider.consult_eq_run`). A provider enters the recursion over a
plan through its consultations alone, so providers that are consulted alike answer alike
(`Provider.answerFrom_congr`).

`Provider.repliesTo` is where the questions of a rule are answered while an operator has a request:
`Provider.answerFrom_eq_consult` unfolds the recursion over the plan once, for any request, and
`Provider.answer_induction` is the induction that goes with it.
-/

namespace QueryAnalysis

namespace Provider

/-! ### The tables of a provider -/

mutual

/-- The tables of a provider, in the order in which they are consulted. -/
def tables : Provider → List HandlerTable
  | table t => [t]
  | chain members => tablesOfAll members

/-- The tables of several providers, one provider after the other. -/
def tablesOfAll : List Provider → List HandlerTable
  | [] => []
  | member :: members => tables member ++ tablesOfAll members

end

theorem tablesOfAll_eq_flatMap (members : List Provider) :
    tablesOfAll members = members.flatMap tables := by
  induction members with
  | nil => simp [tablesOfAll]
  | cons member members ih => simp [tablesOfAll, ih]

@[simp] theorem tables_table (t : HandlerTable) : (table t).tables = [t] := by
  simp [tables]

@[simp] theorem tables_chain (members : List Provider) :
    (chain members).tables = members.flatMap tables := by
  rw [tables, tablesOfAll_eq_flatMap]

theorem tables_builtin (limit : Option Nat) :
    (builtin limit).tables = [UniqueKeys.table limit, ColumnUniqueness.table] := by
  simp [builtin]

section

variable (replies : Replies) (plan : Plan) (request : Request)

/-- The second of two lists of providers is consulted if the first knows nothing. -/
theorem consultAll_append (ps qs : List Provider) :
    consultAll replies plan request (ps ++ qs)
      = (consultAll replies plan request ps).bind fun
          | some answer => .done (some answer)
          | none => consultAll replies plan request qs := by
  induction ps with
  | nil => rw [consultAll, Outcome.done_bind, List.nil_append]
  | cons p ps ih =>
      rw [List.cons_append, consultAll, consultAll, Outcome.bind_assoc]
      congr 1
      funext reply
      cases reply with
      | some answer => rfl
      | none => exact ih

theorem consultAll_singleton (p : Provider) :
    consultAll replies plan request [p] = p.consult replies plan request := by
  rw [consultAll]
  exact Outcome.bind_eq_self fun reply => by cases reply <;> simp [consultAll]

mutual

/-- **A provider is consulted as the list of its tables**, however its chains are nested. -/
theorem consult_eq_consultAll (p : Provider) :
    p.consult replies plan request = consultAll replies plan request (p.tables.map table) := by
  match p with
  | table t => rw [tables_table, List.map_singleton, consultAll_singleton]
  | chain members => rw [consult, tables, consultAll_eq_consultAll members]

theorem consultAll_eq_consultAll (members : List Provider) :
    consultAll replies plan request members
      = consultAll replies plan request ((tablesOfAll members).map table) := by
  match members with
  | [] => rw [tablesOfAll, List.map_nil]
  | member :: members =>
      rw [tablesOfAll, List.map_append, consultAll_append, ← consult_eq_consultAll member,
        ← consultAll_eq_consultAll members, ← consultAll_singleton, ← consultAll_append,
        List.singleton_append]

end

end

/-! ### One inquiry for all tables -/

/-- The inquiries of several tables as one: the next table is asked if those before know nothing. -/
def inquiryOfAll (plan : Plan) (request : Request) : List HandlerTable → Inquiry (Option Answer)
  | [] => .done none
  | t :: ts =>
    (t.inquiry plan request).bind fun
      | some answer => .done (some answer)
      | none => inquiryOfAll plan request ts

/-- What a provider makes of a request about an operator, before any question has its reply. -/
def inquiry (p : Provider) (plan : Plan) (request : Request) : Inquiry (Option Answer) :=
  inquiryOfAll plan request p.tables

theorem consultAll_eq_run (replies : Replies) (plan : Plan) (request : Request)
    (ts : List HandlerTable) :
    consultAll replies plan request (ts.map table)
      = (inquiryOfAll plan request ts).run replies := by
  induction ts with
  | nil => rfl
  | cons t ts ih =>
      rw [List.map_cons, consultAll, consult, inquiryOfAll, Inquiry.run_bind]
      congr 1
      funext reply
      cases reply with
      | some answer => rfl
      | none => exact ih

/-- To consult a provider is to run its inquiry. -/
theorem consult_eq_run (p : Provider) (replies : Replies) (plan : Plan) (request : Request) :
    p.consult replies plan request = (p.inquiry plan request).run replies := by
  rw [consult_eq_consultAll, consultAll_eq_run, inquiry]

/-! ### One step of the recursion over the plan -/

/-- Providers that are consulted alike answer alike. -/
theorem answerFrom_congr {p p' : Provider}
    (h : ∀ replies plan request,
      p.consult replies plan request = p'.consult replies plan request) :
    p.answerFrom = p'.answerFrom := by
  have hstep : p.answerAt = p'.answerAt := by
    funext plan inputs place request
    simp only [answerAt, h]
  rw [answerFrom, answerFrom, hstep]

/-- Where the questions of a rule are answered while the operator at a place has a request. The
operator's own unique keys are not at hand while they are asked for. -/
def repliesTo (p : Provider) (plan : Plan) (place : Place) (request : Request) : Replies where
  input := p.inputReplies plan place
  ownKeys ignoreNulls :=
    if request.query = Request.uniqueKeysQuery then .done none
    else p.answerFrom plan place (.uniqueKeys ignoreNulls)

/-- To answer a request is to consult the provider, with the events of asking and answering. -/
theorem answerFrom_eq_consult (p : Provider) (plan : Plan) (place : Place) (request : Request) :
    p.answerFrom plan place request
      = .traced place plan request
          (p.consult (p.repliesTo plan place request) plan request) := by
  rw [repliesTo]
  simp only [answerFrom_uniqueKeys]
  rw [answerFrom_eq, inputReplies_eq]
  simp only [answerAt]
  split
  · rfl
  · rfl

/-- What holds of a request if it holds of all requests to the inputs and, unless the request is for
unique keys itself, of that for the unique keys of the operator, holds of every request. -/
@[elab_as_elim]
theorem answer_induction {motive : Plan → Place → Request → Prop}
    (step : ∀ plan place request,
      (∀ i input inner, plan.inputs[i]? = some input → motive input (place ++ [i]) inner) →
      (request.query ≠ Request.uniqueKeysQuery →
        ∀ ignoreNulls, motive plan place (.uniqueKeys ignoreNulls)) →
      motive plan place request)
    (plan : Plan) (place : Place) (request : Request) : motive plan place request := by
  induction plan using Plan.induction_on_inputs generalizing place request with
  | step plan ih =>
      have hinputs : ∀ i input inner, plan.inputs[i]? = some input →
          motive input (place ++ [i]) inner :=
        fun i input inner hinput => ih input (List.mem_of_getElem? hinput) _ inner
      refine step plan place request hinputs fun _ ignoreNulls => ?_
      exact step plan place _ hinputs fun hquery => absurd rfl hquery

end Provider

end QueryAnalysis
