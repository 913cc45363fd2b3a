import QueryAnalysis.Proofs.Metadata.Descent
import QueryAnalysis.Proofs.Metadata.Flags

/-!
# Chains of providers

A chain may be cut in two, or have a member that knows nothing taken out, and it still answers every
request with the same value or the same error (`Provider.chains_compose`). Since the questions of a
rule go to the chain as a whole, the two chains that are compared are also the ones that answer these
questions, so the comparison runs along the recursion over the plan.

A chain that is cut in two has the same tables in the same order, so that even the requests on the way
are the same. A member that knows nothing may have asked before it said so; then the requests differ,
but not the results. It is enough that it knows nothing of what it comes to be asked
(`Provider.SilentOn`): every request on the way belongs to the recursion itself
(`Provider.asked_answerFrom_subset`), so what holds of the requests behind an answer holds of those
behind each reply.
-/

namespace QueryAnalysis

variable {α : Type} {S : Asked → Prop} {replies replies' : Replies}

/-! ### Requests of a run -/

/-- A request on the way of one activity after another belongs to the first or to the second. -/
theorem Outcome.asked_follow {β : Type} (outcome : Outcome α) (next : Except Error α → Outcome β) :
    (outcome.follow next).asked = outcome.asked ++ (next outcome.result).asked := by
  simp [follow, asked]

/-- Among some requests the two sets of replies give the same results. -/
def Replies.AgreeOn (S : Asked → Prop) (replies replies' : Replies) : Prop :=
  ∀ question : Question, (∀ a ∈ (replies.reply question).asked, S a) →
    (replies.reply question).result = (replies'.reply question).result

/-- The requests of an outcome come with one of the questions, and with all requests of that
question. -/
def Replies.Covers (replies : Replies) (asked : List Asked) : Prop :=
  ∀ a ∈ asked, ∃ question : Question, a ∈ (replies.reply question).asked ∧
    (replies.reply question).asked ⊆ asked

theorem Replies.Covers.append {xs ys : List Asked} (hxs : replies.Covers xs)
    (hys : replies.Covers ys) : replies.Covers (xs ++ ys) := by
  intro a ha
  rcases List.mem_append.mp ha with hmem | hmem
  · obtain ⟨question, hquestion, hsub⟩ := hxs a hmem
    exact ⟨question, hquestion, List.Subset.trans hsub (List.subset_append_left xs ys)⟩
  · obtain ⟨question, hquestion, hsub⟩ := hys a hmem
    exact ⟨question, hquestion, List.Subset.trans hsub (List.subset_append_right xs ys)⟩

theorem Replies.covers_reply (replies : Replies) (question : Question) :
    replies.Covers (replies.reply question).asked :=
  fun _ ha => ⟨question, ha, List.Subset.refl _⟩

namespace Inquiry

theorem covers_run (replies : Replies) (inquiry : Inquiry α) :
    replies.Covers (inquiry.run replies).asked := by
  induction inquiry with
  | done value => exact fun a ha => absurd ha List.not_mem_nil
  | fail error => exact fun a ha => absurd ha List.not_mem_nil
  | askInput i request resume ih =>
      rw [run, Outcome.asked_follow]
      exact (replies.covers_reply (.input i request)).append (ih _)
  | askOwnKeys ignoreNulls resume ih =>
      rw [run, Outcome.asked_follow]
      exact (replies.covers_reply (.ownKeys ignoreNulls)).append (ih _)

/-- A rule comes to the same result if its questions do. -/
theorem result_run_congr (h : replies.AgreeOn S replies') (inquiry : Inquiry α)
    (hasked : ∀ a ∈ (inquiry.run replies).asked, S a) :
    (inquiry.run replies).result = (inquiry.run replies').result := by
  induction inquiry with
  | done value => rfl
  | fail error => rfl
  | askInput i request resume ih =>
      rw [run, Outcome.asked_follow, List.forall_mem_append] at hasked
      have hreply : (replies.input i request).result = (replies'.input i request).result :=
        h (.input i request) hasked.1
      show ((resume (replies.input i request).result).run replies).result = _
      rw [ih _ hasked.2, hreply]
      rfl
  | askOwnKeys ignoreNulls resume ih =>
      rw [run, Outcome.asked_follow, List.forall_mem_append] at hasked
      have hreply : (replies.ownKeys ignoreNulls).result = (replies'.ownKeys ignoreNulls).result :=
        h (.ownKeys ignoreNulls) hasked.1
      show ((resume (replies.ownKeys ignoreNulls).result).run replies).result = _
      rw [ih _ hasked.2, hreply]
      rfl

end Inquiry

namespace Provider

section

variable {plan : Plan} {request : Request}

theorem covers_consult (p : Provider) (replies : Replies) (plan : Plan) (request : Request) :
    replies.Covers (p.consult replies plan request).asked := by
  rw [consult_eq_run]
  exact Inquiry.covers_run replies _

/-- Providers in a row come to the same result if the questions of their rules do. -/
theorem result_consultAll_congr (h : replies.AgreeOn S replies') (members : List Provider)
    (hasked : ∀ a ∈ (consultAll replies plan request members).asked, S a) :
    (consultAll replies plan request members).result
      = (consultAll replies' plan request members).result := by
  rw [consultAll_eq_consultAll, consultAll_eq_run] at hasked ⊢
  rw [consultAll_eq_consultAll, consultAll_eq_run]
  exact Inquiry.result_run_congr h _ hasked

/-- A member that knows nothing may be left out. -/
theorem result_consultAll_of_silent (h : replies.AgreeOn S replies') {ps qs : List Provider}
    {z : Provider} (hz : (z.consult replies plan request).result = .ok none)
    (hasked : ∀ a ∈ (consultAll replies plan request (ps ++ z :: qs)).asked, S a) :
    (consultAll replies plan request (ps ++ z :: qs)).result
      = (consultAll replies' plan request (ps ++ qs)).result := by
  rw [consultAll_append] at hasked ⊢
  rw [consultAll_append]
  cases hresult : (consultAll replies plan request ps).result with
  | error error =>
      rw [Outcome.asked_bind_of_error hresult] at hasked
      have hresult' := result_consultAll_congr h ps hasked
      rw [hresult] at hresult'
      rw [Outcome.bind_of_error hresult, Outcome.bind_of_error hresult'.symm]
  | ok reply =>
      rw [Outcome.asked_bind_of_ok hresult, List.forall_mem_append] at hasked
      have hresult' := result_consultAll_congr h ps hasked.1
      rw [hresult] at hresult'
      rw [Outcome.result_bind_of_ok hresult, Outcome.result_bind_of_ok hresult'.symm]
      cases reply with
      | some answer => rfl
      | none =>
          have hrest := hasked.2
          simp only [consultAll] at hrest ⊢
          rw [Outcome.asked_bind_of_ok hz, List.forall_mem_append] at hrest
          rw [Outcome.result_bind_of_ok hz]
          exact result_consultAll_congr h qs hrest.2

end

/-! ### Requests of the recursion over the plan -/

/-- What is asked on behalf of a request on the way is asked on the way. -/
theorem asked_answerFrom_subset (p : Provider) (plan : Plan) (place : Place) (request : Request) :
    ∀ a ∈ (p.answerFrom plan place request).asked,
      (p.answerFrom a.operator a.place a.request).asked
        ⊆ (p.answerFrom plan place request).asked := by
  induction plan, place, request using answer_induction with
  | step plan place request hinputs hown =>
      intro a ha
      rw [answerFrom_eq_consult, Outcome.asked_traced] at ha
      rcases List.mem_cons.mp ha with rfl | ha
      · exact List.Subset.refl _
      · obtain ⟨question, hquestion, hsub⟩ := covers_consult p _ plan request a ha
        have hreply : (p.answerFrom a.operator a.place a.request).asked
            ⊆ ((p.repliesTo plan place request).reply question).asked := by
          rcases reply_repliesTo_cases plan place request question with
            ⟨i, input, hinput, heq⟩ | ⟨hquery, ⟨ignoreNulls, hkeys⟩, heq⟩ | ⟨-, heq⟩
          · rw [heq] at hquestion ⊢
            exact hinputs i input _ hinput a hquestion
          · rw [heq, hkeys] at hquestion ⊢
            exact hown hquery ignoreNulls a hquestion
          · rw [heq] at hquestion
            exact absurd hquestion List.not_mem_nil
        rw [answerFrom_eq_consult p plan, Outcome.asked_traced]
        exact List.Subset.trans (List.Subset.trans hreply hsub) (List.subset_cons_self _ _)

/-! ### Chains -/

/-- Consulted about a request in the recursion of a provider, `z` knows nothing. -/
def SilentOn (p : Provider) (z : Provider) (a : Asked) : Prop :=
  (z.consult (p.repliesTo a.operator a.place a.request) a.operator a.request).result = .ok none

/-- Without a member that knows nothing of what it comes to be asked, a chain answers with the same
result. -/
theorem result_answerFrom_of_silent {ps qs : List Provider} {z : Provider} (plan : Plan)
    (place : Place) (request : Request)
    (hz : ∀ a ∈ ((chain (ps ++ z :: qs)).answerFrom plan place request).asked,
      (chain (ps ++ z :: qs)).SilentOn z a) :
    ((chain (ps ++ z :: qs)).answerFrom plan place request).result
      = ((chain (ps ++ qs)).answerFrom plan place request).result := by
  induction plan, place, request using answer_induction with
  | step plan place request hinputs hown =>
      rw [answerFrom_eq_consult, Outcome.asked_traced, List.forall_mem_cons] at hz
      rw [answerFrom_eq_consult, answerFrom_eq_consult, Outcome.result_traced,
        Outcome.result_traced, consult, consult]
      rw [consult] at hz
      refine result_consultAll_of_silent (fun question hquestion => ?_) hz.1 hz.2
      rcases reply_repliesTo_cases plan place request question with
        ⟨i, input, hinput, heq⟩ | ⟨hquery, ⟨ignoreNulls, hkeys⟩, heq⟩ | ⟨-, heq⟩
      · rw [heq] at hquestion ⊢
        rw [heq]
        exact hinputs i input _ hinput hquestion
      · rw [heq, hkeys] at hquestion ⊢
        rw [heq, hkeys]
        exact hown hquery ignoreNulls hquestion
      · rw [heq, heq]

/-- However a chain is cut in two, it answers in the same way. -/
theorem answerFrom_nested (ps qs : List Provider) :
    (chain [chain ps, chain qs]).answerFrom = (chain (ps ++ qs)).answerFrom := by
  refine answerFrom_congr fun replies plan request => ?_
  rw [consult_eq_consultAll, consult_eq_consultAll]
  simp

/-- **Chains compose.** A chain that is cut into a chain of two answers every request in the same way,
down to the requests on the way, and so do both facades. With a further member that knows nothing of
all that it comes to be asked, the chain gives the same value or the same error, at the root and at
every operator that is asked on the way, and again through both facades. -/
theorem chains_compose (ps qs : List Provider) :
    (chain [chain ps, chain qs]).answerFrom = (chain (ps ++ qs)).answerFrom ∧
    (chain [chain ps, chain qs]).uniqueKeys = (chain (ps ++ qs)).uniqueKeys ∧
    (chain [chain ps, chain qs]).columnsUnique = (chain (ps ++ qs)).columnsUnique ∧
    ∀ (z : Provider) (plan : Plan),
      let long := chain (ps ++ z :: qs)
      let short := chain (ps ++ qs)
      (∀ place request,
        (∀ a ∈ (long.answerFrom plan place request).asked, long.SilentOn z a) →
        (long.answerFrom plan place request).result
          = (short.answerFrom plan place request).result ∧
        ∀ a ∈ (long.answerFrom plan place request).asked,
          (long.answerFrom a.operator a.place a.request).result
            = (short.answerFrom a.operator a.place a.request).result) ∧
      (∀ ignoreNulls,
        (∀ a ∈ (long.uniqueKeys plan ignoreNulls).asked, long.SilentOn z a) →
        (long.uniqueKeys plan ignoreNulls).result = (short.uniqueKeys plan ignoreNulls).result) ∧
      ∀ columns ignoreNulls,
        (∀ a ∈ (long.columnsUnique plan columns ignoreNulls).asked, long.SilentOn z a) →
        (long.columnsUnique plan columns ignoreNulls).result
          = (short.columnsUnique plan columns ignoreNulls).result := by
  have hnested := answerFrom_nested ps qs
  have hkeys : (chain [chain ps, chain qs]).uniqueKeys = (chain (ps ++ qs)).uniqueKeys := by
    funext plan ignoreNulls
    rw [uniqueKeys, uniqueKeys, answer, answer, hnested]
  have hunique : (chain [chain ps, chain qs]).columnsUnique = (chain (ps ++ qs)).columnsUnique := by
    funext plan columns ignoreNulls
    rw [columnsUnique, columnsUnique, answer, answer, hnested]
  refine ⟨hnested, hkeys, hunique, ?_⟩
  intro z plan long short
  refine ⟨?_, ?_, ?_⟩
  · intro place request hz
    refine ⟨result_answerFrom_of_silent plan place request hz, fun a ha => ?_⟩
    refine result_answerFrom_of_silent a.operator a.place a.request fun b hb => ?_
    exact hz b (asked_answerFrom_subset long plan place request a ha hb)
  · intro ignoreNulls hz
    have hresult : (long.answer plan (.uniqueKeys ignoreNulls)).result
        = (short.answer plan (.uniqueKeys ignoreNulls)).result :=
      result_answerFrom_of_silent plan [] (.uniqueKeys ignoreNulls) hz
    simp only [uniqueKeys, Outcome.read, hresult]
  · intro columns ignoreNulls hz
    have hresult : (long.answer plan (.columnsUnique columns ignoreNulls)).result
        = (short.answer plan (.columnsUnique columns ignoreNulls)).result :=
      result_answerFrom_of_silent plan [] (.columnsUnique columns ignoreNulls) hz
    simp only [columnsUnique, Outcome.read, hresult]

end Provider

/-- A table whose rules, for any operator, say that nothing is known. -/
def quietCatalog : HandlerTable where
  name := "quiet"
  parameters :=
    [(Request.uniqueKeysQuery, [.bool]), (Request.columnsUniqueQuery, [.columns, .bool])]
  handlers :=
    [(⟨Request.uniqueKeysQuery, .rel, [.bool]⟩, Reply.nothing.handler Request.uniqueKeysQuery),
      (⟨Request.columnsUniqueQuery, .rel, [.columns, .bool]⟩,
        Reply.nothing.handler Request.columnsUniqueQuery)]

theorem quietCatalog_inquiry {request : Request} {ignoreNulls : Bool}
    (h : request.Carries ignoreNulls) (plan : Plan) :
    quietCatalog.inquiry plan request = .done none := by
  rcases h with rfl | ⟨columns, rfl⟩
  · cases plan <;> rfl
  · cases plan <;> rfl

/-- Between the catalog and the built-in rules a table that knows nothing changes no answer, and
neither do chains inside the chain: the rows of a join are told apart by the two keys that the
catalog knows. -/
theorem chains_compose_quietCatalog :
    let plan := Plan.sort ordersWithCustomers []
    let keys := KeySet.singleton (.ofList [1, 3])
    ((Provider.chain ([.table scanCatalog] ++ .table quietCatalog :: [.builtin (some 64)])).uniqueKeys
        plan true).result = .ok (some keys) ∧
      ((Provider.chain [.chain [.table scanCatalog], .chain [.builtin (some 64)]]).uniqueKeys
        plan true).result = .ok (some keys) := by
  intro plan keys
  have hscan : scanCatalog.AsksNothing := by
    rw [HandlerTable.asksNothing_iff, scanCatalog, List.forall_mem_singleton]
    exact fun plan args => .inl ⟨_, rfl⟩
  have hquiet : quietCatalog.AsksNothing := by
    rw [HandlerTable.asksNothing_iff, quietCatalog, List.forall_mem_cons, List.forall_mem_singleton]
    exact ⟨fun plan args => .inl ⟨_, rfl⟩, fun plan args => .inl ⟨_, rfl⟩⟩
  have hbuilt : (Provider.chain ([.table scanCatalog] ++ .table quietCatalog ::
      [.builtin (some 64)])).BuiltWith HandlerTable.AsksNothing := by
    refine .chain ?_
    rw [List.singleton_append, List.forall_mem_cons, List.forall_mem_cons,
      List.forall_mem_singleton]
    exact ⟨.table hscan, .table hquiet, .builtin _⟩
  have hflat : ((Provider.chain ([.table scanCatalog] ++ [.builtin (some 64)])).uniqueKeys
      plan true).result = .ok (some keys) := rfl
  obtain ⟨-, hnested, -, hsilent⟩ :=
    Provider.chains_compose [.table scanCatalog] [.builtin (some 64)]
  refine ⟨((hsilent (.table quietCatalog) plan).2.1 true ?_).trans hflat, by rw [hnested, hflat]⟩
  intro a ha
  rw [Provider.uniqueKeys, Outcome.asked_read] at ha
  have hcarries := (Provider.handedOn_answerFrom hbuilt _ [] _ (.inl rfl) a ha).1
  rw [Provider.SilentOn, Provider.consult, quietCatalog_inquiry hcarries, Inquiry.run]
  rfl

end QueryAnalysis
