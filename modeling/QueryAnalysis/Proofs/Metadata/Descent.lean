import QueryAnalysis.Proofs.Metadata.Failures

/-!
# Where questions lead

While an operator has a request, the questions of a rule go to an input of the operator, to the
operator itself for its unique keys, or nowhere (`Provider.reply_repliesTo_cases`). The first two lead
down: `Plan.askDepth` decreases, also with the one that stays at the same operator, since it is put
only on behalf of another request than for unique keys (`Question.Descends`).

`Provider.answerFrom` has this order built in. `Provider.answerWithin` is the recursion as rules spell
it out, each question calling it again from the start, with a bound on the depth.
-/

namespace QueryAnalysis

/-! ### The height of a plan -/

namespace Plan

/-- The number of steps from the root of a plan to the operator farthest below it. -/
def height : Plan → Nat :=
  fold fun _ heights => heights.foldr (fun h most => max (h + 1) most) 0

theorem height_lt_of_mem_inputs {plan input : Plan} (h : input ∈ plan.inputs) :
    input.height < plan.height := by
  have hfoldr : ∀ inputs : List Plan, input ∈ inputs →
      input.height < (inputs.map height).foldr (fun h most => max (h + 1) most) 0 := by
    intro inputs
    induction inputs with
    | nil => exact fun hmem => absurd hmem List.not_mem_nil
    | cons first inputs ih =>
        intro hmem
        rw [List.map_cons, List.foldr_cons]
        rcases List.mem_cons.mp hmem with rfl | hmem
        · omega
        · have := ih hmem
          omega
  show input.height < plan.fold _
  rw [fold_eq]
  exact hfoldr plan.inputs h

/-- How deep requests can be nested when an operator is asked. An operator that is asked for something
else than its unique keys may be asked for these as well, so every operator counts twice. -/
def askDepth (plan : Plan) (request : Request) : Nat :=
  2 * plan.height + if request.query = Request.uniqueKeysQuery then 1 else 2

theorem askDepth_lt_of_input {plan input : Plan} {i : Nat} (h : plan.inputs[i]? = some input)
    (inner request : Request) : input.askDepth inner < plan.askDepth request := by
  have hheight := height_lt_of_mem_inputs (List.mem_of_getElem? h)
  unfold askDepth
  split <;> split <;> omega

theorem askDepth_uniqueKeys_lt (plan : Plan) {request : Request}
    (h : request.query ≠ Request.uniqueKeysQuery) (ignoreNulls : Bool) :
    plan.askDepth (.uniqueKeys ignoreNulls) < plan.askDepth request := by
  have hkeys : (Request.uniqueKeys ignoreNulls).query = Request.uniqueKeysQuery := rfl
  rw [askDepth, askDepth, if_neg h, if_pos hkeys]
  omega

end Plan

/-! ### Questions that lead down -/

/-- A question for an input that there is, or for the operator's own unique keys if it was asked for
something else. -/
def Question.Descends (plan : Plan) (request : Request) : Question → Prop
  | input i _ => i < plan.inputs.length
  | ownKeys _ => request.query ≠ Request.uniqueKeysQuery

namespace Provider

/-- A question is put to an input or to the operator itself, and leads down, or to nobody. -/
theorem reply_repliesTo_cases (plan : Plan) (place : Place) (request : Request)
    (question : Question) :
    (∃ i input, plan.inputs[i]? = some input ∧
      ∀ p : Provider, (p.repliesTo plan place request).reply question
        = p.answerFrom input (place ++ [i]) question.request) ∨
    (request.query ≠ Request.uniqueKeysQuery ∧
      (∃ ignoreNulls, question.request = .uniqueKeys ignoreNulls) ∧
      ∀ p : Provider, (p.repliesTo plan place request).reply question
        = p.answerFrom plan place question.request) ∨
    (¬ question.Descends plan request ∧
      ∀ p : Provider, (p.repliesTo plan place request).reply question = .done none) := by
  cases question with
  | input i inner =>
      cases hinput : plan.inputs[i]? with
      | some input => exact .inl ⟨i, input, hinput, fun p => inputReplies_of_getElem? hinput⟩
      | none =>
          refine .inr (.inr ⟨Nat.not_lt.mpr (List.getElem?_eq_none_iff.mp hinput), fun p => ?_⟩)
          simp [Replies.reply, repliesTo, inputReplies, hinput]
  | ownKeys ignoreNulls =>
      by_cases hquery : request.query = Request.uniqueKeysQuery
      · exact .inr (.inr ⟨fun hne => hne hquery, fun p => if_pos hquery⟩)
      · exact .inr (.inl ⟨hquery, ⟨ignoreNulls, rfl⟩, fun p => if_neg hquery⟩)

/-- Answers a request by bare recursion: a question asks an input, or the operator once more, in the
same way. Requests that would be nested deeper than the bound fail. -/
def answerWithin (p : Provider) (tooDeep : Error) :
    Nat → Plan → Place → Request → Outcome (Option Answer)
  | 0, _, _, _ => .fail tooDeep
  | depth + 1, plan, place, request =>
    let input := fun i inner =>
      match plan.inputs[i]? with
      | some input => answerWithin p tooDeep depth input (place ++ [i]) inner
      | none => .done none
    let ownKeys := fun ignoreNulls =>
      answerWithin p tooDeep depth plan place (.uniqueKeys ignoreNulls)
    .traced place plan request (p.consult ⟨input, ownKeys⟩ plan request)

end Provider

end QueryAnalysis
