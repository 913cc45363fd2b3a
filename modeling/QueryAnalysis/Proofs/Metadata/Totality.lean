import QueryAnalysis.Proofs.Metadata.Descent

/-!
# The built-in rules never fail and always end

A rule has an error at hand for an operator that it is not made for, for missing arguments and for
answers of the wrong kind. Under the built-in provider none of them is ever used, on any plan: an
inquiry of its tables settles (`Inquiry.Settles`), which is to say that it comes to a fitting answer
whenever its questions do, and that the questions are well-formed and lead down
(`Question.Descends`). Following the recursion over the plan, everything goes well on the way to every
answer (`Outcome.GoesWell`).

Since every question leads down, the bare recursion of `Provider.answerWithin` has ended at the depth
`Plan.askDepth`, with the same answer after the same events (`Provider.answerWithin_builtin`).
-/

namespace QueryAnalysis

variable {α β : Type}

/-! ### Inquiries that settle -/

/-- If there is an answer, it is one that the query can have. -/
def Answer.Fitting (query : String) (reply : Option Answer) : Prop :=
  ∀ answer ∈ reply, answer.fits query = true

theorem Answer.fitting_none (query : String) : Fitting query none := by
  intro answer hanswer
  exact absurd hanswer (by simp)

theorem Answer.fitting_map {query : String} {make : α → Answer}
    (h : ∀ value, (make value).fits query = true) (known : Option α) :
    Fitting query (known.map make) := by
  intro answer hanswer
  obtain ⟨value, -, rfl⟩ := Option.map_eq_some_iff.mp hanswer
  exact h value

/-- A question that leads down and hands the flag on. -/
structure Question.Proper (plan : Plan) (request : Request) (ignoreNulls : Bool)
    (question : Question) : Prop where
  descends : question.Descends plan request
  carries : question.request.Carries ignoreNulls

namespace Inquiry

/-- The inquiry asks only such questions and, if they are answered with values that fit, it comes to
such a value and does not fail. -/
inductive Settles (P : Question → Prop) (Q : α → Prop) : Inquiry α → Prop
  | done {value : α} : Q value → Settles P Q (.done value)
  | askInput {i : Nat} {request : Request} {resume : Except Error (Option Answer) → Inquiry α} :
      P (.input i request) →
      (∀ reply, Answer.Fitting request.query reply → Settles P Q (resume (.ok reply))) →
      Settles P Q (.askInput i request resume)
  | askOwnKeys {ignoreNulls : Bool} {resume : Except Error (Option Answer) → Inquiry α} :
      P (.ownKeys ignoreNulls) →
      (∀ reply, Answer.Fitting Request.uniqueKeysQuery reply → Settles P Q (resume (.ok reply))) →
      Settles P Q (.askOwnKeys ignoreNulls resume)

variable {P : Question → Prop} {Q : α → Prop} {R : β → Prop}

theorem Settles.bind {inquiry : Inquiry α} {next : α → Inquiry β} (h : inquiry.Settles P Q)
    (hnext : ∀ value, Q value → (next value).Settles P R) : (inquiry.bind next).Settles P R := by
  induction h with
  | done hvalue => exact hnext _ hvalue
  | askInput hP _ ih => exact .askInput hP ih
  | askOwnKeys hP _ ih => exact .askOwnKeys hP ih

/-- An answer that fits is read as keys. -/
theorem settles_asKeys {reply : Option Answer}
    (h : Answer.Fitting Request.uniqueKeysQuery reply) :
    (ofExcept (Answer.asKeys Request.uniqueKeysQuery reply)).Settles P fun _ => True := by
  cases reply with
  | none => exact .done trivial
  | some answer =>
      cases answer with
      | keys value => exact .done trivial
      | bool value => exact absurd (h _ rfl) Bool.false_ne_true

/-- An answer that fits is read as a truth value. -/
theorem settles_asBool {reply : Option Answer}
    (h : Answer.Fitting Request.columnsUniqueQuery reply) :
    (ofExcept (Answer.asBool Request.columnsUniqueQuery reply)).Settles P fun _ => True := by
  cases reply with
  | none => exact .done trivial
  | some answer =>
      cases answer with
      | keys value => exact absurd (h _ rfl) Bool.false_ne_true
      | bool value => exact .done trivial

section

variable {plan : Plan} {request : Request} (ignoreNulls : Bool)

theorem settles_keysOfInput {i : Nat} (h : i < plan.inputs.length) :
    (keysOfInput i ignoreNulls).Settles (Question.Proper plan request ignoreNulls)
      fun _ => True :=
  .askInput ⟨h, .inl rfl⟩ fun _ hreply => settles_asKeys hreply

theorem settles_columnsUniqueOfInput {i : Nat} (h : i < plan.inputs.length)
    (columns : ColumnSet) :
    (columnsUniqueOfInput i columns ignoreNulls).Settles
      (Question.Proper plan request ignoreNulls) fun _ => True :=
  .askInput ⟨h, .inr ⟨columns, rfl⟩⟩ fun _ hreply => settles_asBool hreply

theorem settles_ownKeys (h : request.query ≠ Request.uniqueKeysQuery) :
    (ownKeys ignoreNulls).Settles (Question.Proper plan request ignoreNulls) fun _ => True :=
  .askOwnKeys ⟨h, .inl rfl⟩ fun _ hreply => settles_asKeys hreply

end

end Inquiry

/-! ### The built-in rules settle -/

section

open Inquiry

variable (plan : Plan) (ignoreNulls : Bool)

theorem UniqueKeys.settles_uniqueOn {request : Request} {i : Nat} (h : i < plan.inputs.length)
    (keys : Option KeySet) (columns : ColumnSet) :
    (uniqueOn i keys columns ignoreNulls).Settles (Question.Proper plan request ignoreNulls)
      fun _ => True := by
  cases keys with
  | none => exact settles_columnsUniqueOfInput ignoreNulls h columns
  | some known => exact .done trivial

/-- The rule for unique keys that serves an operator accepts it. -/
theorem UniqueKeys.settles_ruleFor (limit : Option Nat) :
    (ruleFor limit plan.kind ignoreNulls plan).Settles
      (Question.Proper plan (.uniqueKeys ignoreNulls) ignoreNulls) fun _ => True := by
  cases plan with
  | scan | values | aggregate | limit | union | extension => exact .done trivial
  | filter | sort | semiJoin | correlate =>
      exact settles_keysOfInput ignoreNulls (Nat.zero_lt_succ _)
  | project input columns schema =>
      show (projectKeys ignoreNulls (.project input columns schema)).Settles _ _
      rw [projectKeys]
      split
      · exact .done trivial
      · exact (settles_keysOfInput ignoreNulls Nat.one_pos).bind fun keys _ => .done trivial
  | join left right kind condition schema =>
      have hleft : 0 < (Plan.join left right kind condition schema).inputs.length := Nat.two_pos
      have hright : 1 < (Plan.join left right kind condition schema).inputs.length :=
        Nat.one_lt_two
      refine (settles_keysOfInput ignoreNulls hleft).bind fun leftKeys _ => ?_
      refine (settles_keysOfInput ignoreNulls hright).bind fun rightKeys _ => ?_
      split
      · exact .done trivial
      · refine (settles_uniqueOn _ ignoreNulls hleft _ _).bind fun leftUnique _ => ?_
        exact (settles_uniqueOn _ ignoreNulls hright _ _).bind fun rightUnique _ => .done trivial

/-- The rule for uniqueness of columns that serves an operator accepts it. -/
theorem ColumnUniqueness.settles_ruleFor (columns : ColumnSet) :
    (ruleFor plan.kind columns ignoreNulls plan).Settles
      (Question.Proper plan (.columnsUnique columns ignoreNulls) ignoreNulls) fun _ => True := by
  have hquery : (Request.columnsUnique columns ignoreNulls).query ≠ Request.uniqueKeysQuery := by
    show Request.columnsUniqueQuery ≠ Request.uniqueKeysQuery
    decide
  cases plan with
  | filter | sort => exact settles_columnsUniqueOfInput ignoreNulls Nat.one_pos _
  | project => exact settles_columnsUniqueOfInput ignoreNulls Nat.one_pos _
  | _ => exact (settles_ownKeys ignoreNulls hquery).bind fun keys _ => .done trivial

/-- **The tables of the built-in provider settle every request.** The rule that is looked up accepts
the operator and the arguments, asks well-formed questions that lead down, and ends with an answer of
the right kind if they did. -/
theorem Provider.settles_builtin (limit : Option Nat) {request : Request}
    (h : request.Carries ignoreNulls) :
    ∀ t ∈ (builtin limit).tables, (t.inquiry plan request).Settles
      (Question.Proper plan request ignoreNulls) (Answer.Fitting request.query) := by
  rw [tables_builtin, List.forall_mem_cons, List.forall_mem_singleton]
  rcases h with rfl | ⟨columns, rfl⟩
  · rw [UniqueKeys.inquiry_uniqueKeys, ColumnUniqueness.inquiry_uniqueKeys]
    refine ⟨(UniqueKeys.settles_ruleFor plan ignoreNulls limit).bind fun keys _ => .done ?_,
      .done (Answer.fitting_none _)⟩
    exact Answer.fitting_map (fun _ => rfl) keys
  · rw [UniqueKeys.inquiry_columnsUnique, ColumnUniqueness.inquiry_columnsUnique]
    refine ⟨.done (Answer.fitting_none _),
      (ColumnUniqueness.settles_ruleFor plan ignoreNulls columns).bind fun unique _ => .done ?_⟩
    exact Answer.fitting_map (fun _ => rfl) unique

end

/-! ### Runs in which everything goes well -/

/-- A well-formed request is put, or has an answer of the right kind. -/
def Event.GoesWell (ignoreNulls : Bool) : Event → Prop
  | asked _ _ request => request.Carries ignoreNulls
  | answered _ request result => request.Carries ignoreNulls ∧
      ∃ reply, result = .ok reply ∧ Answer.Fitting request.query reply

/-- Everything goes well on the way to a result, which is a value of some kind. -/
structure Outcome.GoesWell (ignoreNulls : Bool) (Q : α → Prop) (outcome : Outcome α) : Prop where
  result : ∃ value, outcome.result = .ok value ∧ Q value
  events : ∀ event ∈ outcome.events, event.GoesWell ignoreNulls

namespace Outcome.GoesWell

variable {ignoreNulls : Bool} {Q : α → Prop} {R : β → Prop}

theorem done {value : α} (h : Q value) : (Outcome.done value).GoesWell ignoreNulls Q :=
  ⟨⟨value, rfl, h⟩, List.forall_mem_nil _⟩

theorem follow {outcome : Outcome α} {next : Except Error α → Outcome β}
    (h : outcome.GoesWell ignoreNulls Q)
    (hnext : ∀ value, Q value → (next (.ok value)).GoesWell ignoreNulls R) :
    (outcome.follow next).GoesWell ignoreNulls R := by
  obtain ⟨⟨value, hresult, hvalue⟩, hevents⟩ := h
  rw [Outcome.follow, hresult]
  exact ⟨(hnext value hvalue).result,
    List.forall_mem_append.mpr ⟨hevents, (hnext value hvalue).events⟩⟩

theorem traced {request : Request} {outcome : Outcome (Option Answer)}
    (h : outcome.GoesWell ignoreNulls (Answer.Fitting request.query))
    (hcarries : request.Carries ignoreNulls) (place : Place) (plan : Plan) :
    (Outcome.traced place plan request outcome).GoesWell ignoreNulls
      (Answer.Fitting request.query) where
  result := h.result
  events := by
    show ∀ event ∈ .asked place plan request :: outcome.events ++ [_], _
    rw [List.cons_append, List.forall_mem_cons, List.forall_mem_append, List.forall_mem_singleton]
    exact ⟨hcarries, h.events, hcarries, h.result⟩

end Outcome.GoesWell

namespace Inquiry.Settles

variable {ignoreNulls : Bool} {P : Question → Prop} {Q : α → Prop} {inquiry : Inquiry α}
  {replies replies' : Replies}

theorem goesWell (h : inquiry.Settles P Q)
    (hreplies : ∀ question, P question →
      (replies.reply question).GoesWell ignoreNulls (Answer.Fitting question.request.query)) :
    (inquiry.run replies).GoesWell ignoreNulls Q := by
  induction h with
  | done hvalue => exact .done hvalue
  | askInput hP _ ih => exact (hreplies _ hP).follow fun reply hreply => ih reply hreply
  | askOwnKeys hP _ ih => exact (hreplies _ hP).follow fun reply hreply => ih reply hreply

/-- Only the replies to the questions that are asked matter. -/
theorem run_congr (h : inquiry.Settles P Q)
    (hreplies : ∀ question, P question →
      (replies.reply question).GoesWell ignoreNulls (Answer.Fitting question.request.query))
    (heq : ∀ question, P question → replies'.reply question = replies.reply question) :
    inquiry.run replies' = inquiry.run replies := by
  induction h with
  | done hvalue => rfl
  | @askInput i request resume hP _ ih =>
      obtain ⟨reply, hresult, hreply⟩ := (hreplies _ hP).result
      have hinput : replies'.input i request = replies.input i request := heq _ hP
      have hresult : (replies.input i request).result = .ok reply := hresult
      rw [run, run, hinput, Outcome.follow, Outcome.follow, hresult, ih reply hreply]
  | @askOwnKeys ignoreNulls resume hP _ ih =>
      obtain ⟨reply, hresult, hreply⟩ := (hreplies _ hP).result
      have hown : replies'.ownKeys ignoreNulls = replies.ownKeys ignoreNulls := heq _ hP
      have hresult : (replies.ownKeys ignoreNulls).result = .ok reply := hresult
      rw [run, run, hown, Outcome.follow, Outcome.follow, hresult, ih reply hreply]

end Inquiry.Settles

/-! ### The recursion over the plan -/

namespace Provider

theorem settles_inquiryOfAll {P : Question → Prop} {plan : Plan} {request : Request}
    {ts : List HandlerTable}
    (h : ∀ t ∈ ts, (t.inquiry plan request).Settles P (Answer.Fitting request.query)) :
    (inquiryOfAll plan request ts).Settles P (Answer.Fitting request.query) := by
  induction ts with
  | nil => exact .done (Answer.fitting_none _)
  | cons t ts ih =>
      rw [List.forall_mem_cons] at h
      refine h.1.bind fun reply hreply => ?_
      cases reply with
      | some answer => exact .done hreply
      | none => exact ih h.2

section

variable {ignoreNulls : Bool} {plan : Plan} {place : Place} {request : Request}

/-- The replies to the questions of a rule are the answers of inputs or of the operator itself. -/
theorem goesWell_reply {p : Provider}
    (hinputs : ∀ i input inner, plan.inputs[i]? = some input → inner.Carries ignoreNulls →
      (p.answerFrom input (place ++ [i]) inner).GoesWell ignoreNulls (Answer.Fitting inner.query))
    (hown : request.query ≠ Request.uniqueKeysQuery → ∀ flag,
      (Request.uniqueKeys flag).Carries ignoreNulls →
      (p.answerFrom plan place (.uniqueKeys flag)).GoesWell ignoreNulls
        (Answer.Fitting Request.uniqueKeysQuery))
    {question : Question} (h : question.Proper plan request ignoreNulls) :
    ((p.repliesTo plan place request).reply question).GoesWell ignoreNulls
      (Answer.Fitting question.request.query) := by
  have hcarries := h.carries
  rcases reply_repliesTo_cases plan place request question with
    ⟨i, input, hinput, heq⟩ | ⟨hquery, ⟨flag, hflag⟩, heq⟩ | ⟨hdescends, -⟩
  · rw [heq]
    exact hinputs i input _ hinput hcarries
  · rw [heq]
    rw [hflag] at hcarries ⊢
    exact hown hquery flag hcarries
  · exact absurd h.descends hdescends

/-- Under the built-in rules everything goes well on the way to the answer of a request that carries
the flag. -/
theorem goesWell_answerFrom (limit : Option Nat) (plan : Plan) (place : Place) (request : Request)
    (h : request.Carries ignoreNulls) :
    ((builtin limit).answerFrom plan place request).GoesWell ignoreNulls
      (Answer.Fitting request.query) := by
  induction plan, place, request using answer_induction with
  | step plan place request hinputs hown =>
      have hsettles := settles_inquiryOfAll (settles_builtin plan ignoreNulls limit h)
      rw [answerFrom_eq_consult, consult_eq_run]
      refine Outcome.GoesWell.traced (hsettles.goesWell fun question hproper => ?_) h place plan
      exact goesWell_reply hinputs hown hproper

/-- **The bare recursion ends with the same answer.** -/
theorem answerWithin_builtin (limit : Option Nat) (tooDeep : Error) (plan : Plan) (place : Place)
    (request : Request) (h : request.Carries ignoreNulls) {depth : Nat}
    (hdepth : plan.askDepth request ≤ depth) :
    (builtin limit).answerWithin tooDeep depth plan place request
      = (builtin limit).answerFrom plan place request := by
  induction plan, place, request using answer_induction generalizing depth with
  | step plan place request hinputs hown =>
      obtain ⟨depth, rfl⟩ : ∃ d, depth = d + 1 := by
        refine Nat.exists_eq_succ_of_ne_zero ?_
        unfold Plan.askDepth at hdepth
        split at hdepth <;> omega
      have hsettles := settles_inquiryOfAll (settles_builtin plan ignoreNulls limit h)
      have hreplies : ∀ question : Question, question.Proper plan request ignoreNulls →
          (((builtin limit).repliesTo plan place request).reply question).GoesWell ignoreNulls
            (Answer.Fitting question.request.query) := by
        intro question hproper
        refine goesWell_reply (fun i input inner _ hcarries => ?_) (fun _ flag hcarries => ?_) hproper
        · exact goesWell_answerFrom limit input _ inner hcarries
        · exact goesWell_answerFrom limit plan place _ hcarries
      rw [answerFrom_eq_consult, answerWithin, consult_eq_run, consult_eq_run]
      refine congrArg (Outcome.traced place plan request) (hsettles.run_congr hreplies ?_)
      intro question hproper
      have hcarries := hproper.carries
      -- Every question leads to a request of lesser depth.
      cases question with
      | input i inner =>
          obtain ⟨input, hinput⟩ : ∃ input, plan.inputs[i]? = some input :=
            ⟨_, List.getElem?_eq_getElem hproper.descends⟩
          have hlt := Plan.askDepth_lt_of_input hinput inner request
          simp only [Replies.reply]
          rw [hinput]
          exact (hinputs i input inner hinput hcarries (by omega)).trans
            (inputReplies_of_getElem? hinput).symm
      | ownKeys flag =>
          have hlt := plan.askDepth_uniqueKeys_lt hproper.descends flag
          exact (hown hproper.descends flag hcarries (by omega)).trans
            (if_neg hproper.descends).symm

end

/-- **The built-in rules never fail and always end.** Under any limit and for every plan, whatever its
schemas, columns and keys, both facades give a value. To a well-formed request, moreover,

* each table has a rule that accepts the operator and the arguments, or none;
* everything that is asked on the way is well-formed and has an answer of the right kind;
* the answer is that of the bare recursion, at any depth from a bound that the plan sets. -/
theorem builtin_never_fails (limit : Option Nat) (plan : Plan) :
    (∀ ignoreNulls, ∃ keys, ((builtin limit).uniqueKeys plan ignoreNulls).result = .ok keys) ∧
    (∀ columns ignoreNulls,
      ∃ unique, ((builtin limit).columnsUnique plan columns ignoreNulls).result = .ok unique) ∧
    ∀ place request ignoreNulls, request.Carries ignoreNulls →
      (∀ t ∈ (builtin limit).tables, (t.inquiry plan request).Settles
        (Question.Proper plan request ignoreNulls) (Answer.Fitting request.query)) ∧
      ((builtin limit).answerFrom plan place request).GoesWell ignoreNulls
        (Answer.Fitting request.query) ∧
      ∀ tooDeep depth, plan.askDepth request ≤ depth →
        (builtin limit).answerWithin tooDeep depth plan place request
          = (builtin limit).answerFrom plan place request := by
  refine ⟨fun ignoreNulls => ?_, fun columns ignoreNulls => ?_, fun place request ignoreNulls h => ?_⟩
  · exact ⟨_, result_uniqueKeys_builtin limit plan ignoreNulls⟩
  · exact ⟨_, result_columnsUnique_builtin limit plan columns ignoreNulls⟩
  · exact ⟨settles_builtin plan ignoreNulls limit h, goesWell_answerFrom limit plan place request h,
      fun tooDeep depth hdepth => answerWithin_builtin limit tooDeep plan place request h hdepth⟩

/-- A filter by a column that there is not, over a scan without columns that has a key all the same. -/
theorem builtin_never_fails_dangling :
    let plan := Plan.filter (.scan "t" [] [.singleton 9]) (.column 40)
    let request := Request.columnsUnique (.singleton 7) true
    ((builtin (some 64)).answerFrom plan [] request).GoesWell true (Answer.Fitting request.query) ∧
      (builtin (some 64)).answerWithin (.rule "too deep") 4 plan [] request
        = (builtin (some 64)).answerFrom plan [] request := by
  intro plan request
  obtain ⟨-, -, h⟩ := builtin_never_fails (some 64) plan
  obtain ⟨-, hgoesWell, hwithin⟩ := h [] request true (.inr ⟨_, rfl⟩)
  exact ⟨hgoesWell, hwithin (.rule "too deep") 4 (by decide)⟩

end Provider

end QueryAnalysis
