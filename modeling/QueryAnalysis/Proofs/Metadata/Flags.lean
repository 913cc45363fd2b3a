import QueryAnalysis.Proofs.Metadata.Questions
import QueryAnalysis.Proofs.Metadata.Repetition

/-!
# The flag reaches every request

Whether nulls are ignored is a flag that every rule hands on with its questions, in whichever place
among the arguments and from either query to the other. If the rules outside the built-in tables ask
nothing, then all requests on the way to an answer are for unique keys or uniqueness of columns and
carry the flag of the first one, and they are put to operators of the plan
(`Provider.flag_reaches_every_request`).
-/

namespace QueryAnalysis

variable {α β : Type}

/-! ### Requests with a flag -/

theorem Request.Carries.eq_of_mem_args {request : Request} {ignoreNulls flag : Bool}
    (h : request.Carries ignoreNulls) (hflag : .bool flag ∈ request.args) : flag = ignoreNulls := by
  rcases h with rfl | ⟨columns, rfl⟩
  · simpa [uniqueKeys] using hflag
  · simpa [columnsUnique] using hflag

/-- A request that carries the flag and is put to an operator of the plan that stands at the place.
-/
def Asked.HandedOn (ignoreNulls : Bool) (plan : Plan) (place : Place) (a : Asked) : Prop :=
  a.request.Carries ignoreNulls ∧ (a.place, a.operator) ∈ plan.sites place

theorem Plan.mem_sites_of_input {plan input : Plan} {place : Place} {i : Nat} {site : Site}
    (hinput : plan.inputs[i]? = some input) (h : site ∈ input.sites (place ++ [i])) :
    site ∈ plan.sites place := by
  rw [sites_eq]
  have hmem : (input, i) ∈ plan.inputs.zipIdx := List.mem_zipIdx_iff_getElem?.mpr hinput
  exact List.mem_cons_of_mem _ (List.mem_flatMap.mpr ⟨(input, i), hmem, h⟩)

/-- Requests that all are of one kind: a property of outcomes that is kept by going on. -/
theorem Outcome.invariant_asked (S : Asked → Prop) :
    Invariant fun {_} outcome => ∀ a ∈ outcome.asked, S a where
  done _ := List.forall_mem_nil S
  fail _ := List.forall_mem_nil S
  bind {_ _ outcome next} h hnext := by
    cases hresult : outcome.result with
    | ok value =>
        rw [asked_bind_of_ok hresult, List.forall_mem_append]
        exact ⟨h, hnext value⟩
    | error error =>
        rw [asked_bind_of_error hresult]
        exact h

/-- To ask nothing is to answer or fail at once. -/
theorem HandlerTable.asksNothing_iff {t : HandlerTable} :
    t.AsksNothing ↔ ∀ entry ∈ t.handlers, ∀ plan args,
      (∃ answer, entry.2 plan args = .done answer) ∨ ∃ error, entry.2 plan args = .fail error := by
  constructor
  · intro h entry hentry plan args
    have hasks := h entry hentry plan args
    cases hcourse : entry.2 plan args with
    | done answer => exact .inl ⟨answer, rfl⟩
    | fail error => exact .inr ⟨error, rfl⟩
    | askInput input request resume =>
        rw [hcourse] at hasks
        cases hasks with
        | askInput hfalse _ _ => exact hfalse.elim
    | askOwnKeys ignoreNulls resume =>
        rw [hcourse] at hasks
        cases hasks with
        | askOwnKeys hfalse _ _ => exact hfalse.elim
  · intro h entry hentry plan args
    rcases h entry hentry plan args with ⟨answer, hdone⟩ | ⟨error, hfail⟩
    · rw [hdone]
      exact .done answer
    · rw [hfail]
      exact .fail error

namespace Provider

theorem handedOn_answerFrom {p : Provider} {ignoreNulls : Bool}
    (h : p.BuiltWith HandlerTable.AsksNothing) (plan : Plan) (place : Place) (request : Request)
    (hcarries : request.Carries ignoreNulls) :
    ∀ a ∈ (p.answerFrom plan place request).asked, a.HandedOn ignoreNulls plan place := by
  induction plan, place, request using answer_induction with
  | step plan place request hinputs hown =>
      have hquestion : ∀ question : Question,
          (∃ flag, .bool flag ∈ request.args ∧ question.request.Carries flag) →
          question.request.Carries ignoreNulls := by
        intro question hasked
        obtain ⟨flag, hflag, hquestion⟩ := hasked
        rwa [hcarries.eq_of_mem_args hflag] at hquestion
      rw [answerFrom_eq_consult, Outcome.asked_traced, List.forall_mem_cons]
      refine ⟨⟨hcarries, ?_⟩, ?_⟩
      · rw [Plan.sites_eq]
        exact List.mem_cons_self
      · refine (Outcome.invariant_asked _).consult_repliesTo h.asksOnly_flagged ?_ ?_
        · intro i inner input hasked hinput a ha
          obtain ⟨hrequest, hsite⟩ :=
            hinputs i input inner hinput (hquestion (.input i inner) hasked) a ha
          exact ⟨hrequest, Plan.mem_sites_of_input hinput hsite⟩
        · intro flag hasked hquery
          exact hown hquery flag (hquestion (.ownKeys flag) hasked)

/-- **The flag reaches every request.** In a provider that is made of the built-in ones and of
tables whose rules ask nothing, all requests on the way to the unique keys of a plan, or to whether
columns are unique, are for unique keys or uniqueness of columns with the same flag, and are put to
operators of the plan. -/
theorem flag_reaches_every_request {p : Provider} (h : p.BuiltWith HandlerTable.AsksNothing)
    (plan : Plan) (ignoreNulls : Bool) :
    (∀ a ∈ (p.uniqueKeys plan ignoreNulls).asked,
        a.request.Carries ignoreNulls ∧ (a.place, a.operator) ∈ plan.sites []) ∧
      ∀ columns, ∀ a ∈ (p.columnsUnique plan columns ignoreNulls).asked,
        a.request.Carries ignoreNulls ∧ (a.place, a.operator) ∈ plan.sites [] := by
  refine ⟨?_, fun columns => ?_⟩
  · rw [uniqueKeys, Outcome.asked_read]
    exact handedOn_answerFrom h plan [] _ (.inl rfl)
  · rw [columnsUnique, Outcome.asked_read]
    exact handedOn_answerFrom h plan [] _ (.inr ⟨columns, rfl⟩)

end Provider

/-- A table that knows a key of every scan, and nothing else. -/
def scanCatalog : HandlerTable where
  name := "catalog"
  parameters := [(Request.uniqueKeysQuery, [.bool])]
  handlers :=
    [(⟨Request.uniqueKeysQuery, .scan, [.bool]⟩,
      (Reply.constant (.keys (.singleton (.singleton 1)))).handler Request.uniqueKeysQuery)]

/-- The keys of the numbers are unknown, so that the join asks them about uniqueness as well, and
they are asked for their keys once more. -/
theorem flag_reaches_every_request_numberedCustomers :
    let p := Provider.chain [.table scanCatalog, .builtin (some 64)]
    let asked := (p.uniqueKeys (.sort numberedCustomers []) true).asked
    asked.length = 6 ∧ ∀ a ∈ asked,
      a.request.Carries true ∧
        (a.place, a.operator) ∈ (Plan.sort numberedCustomers []).sites [] := by
  have hcatalog : scanCatalog.AsksNothing := by
    rw [HandlerTable.asksNothing_iff]
    intro entry hentry plan args
    obtain rfl := List.mem_singleton.mp hentry
    exact .inl ⟨_, rfl⟩
  have hbuilt : (Provider.chain [.table scanCatalog, .builtin (some 64)]).BuiltWith
      HandlerTable.AsksNothing := by
    refine .chain ?_
    rw [List.forall_mem_cons, List.forall_mem_singleton]
    exact ⟨.table hcatalog, .builtin _⟩
  exact ⟨by decide, (Provider.flag_reaches_every_request hbuilt _ true).1⟩

end QueryAnalysis
