import QueryAnalysis.Proofs.Metadata.Dispatch

/-!
# What the built-in rules derive

The built-in provider comes to its answers by running rules that ask each other about inputs.
`Plan.derived` is the same derivation as a plain recursion over the plan, without requests, errors
or flags: it gives an operator's unique keys and, for every set of columns, whether they are unique.

`builtin_derives` says that the two agree on every plan: both requests succeed, for either treatment
of nulls and at any place, with exactly what `Plan.derived` says. Facts about the answers of the
built-in rules are therefore facts about `Plan.derived`.
-/

namespace QueryAnalysis

/-- What is known of an operator: its unique keys, and which columns are unique. -/
structure Derived where
  keys : Option KeySet
  unique : ColumnSet → Option Bool

/-- What is known of an operator whose columns are unique exactly if a key lies within them. -/
def Derived.ofKeys (keys : Option KeySet) : Derived :=
  ⟨keys, fun columns => keys.map fun known => known.covers columns⟩

/-- Whether some columns of an input are unique: known keys decide, and only without them the
input's own answer does. -/
def Derived.uniqueOn (d : Derived) (columns : ColumnSet) : Option Bool :=
  match d.keys with
  | some known => some (known.covers columns)
  | none => d.unique columns

/-- The keys of a join, given what is known of its sides. -/
def Derived.joinKeys (limit : Option Nat) (leftWidth : Nat) (kind : JoinKind) (condition : Scalar)
    (left right : Derived) : Option KeySet :=
  if left.keys.isNone && right.keys.isNone then none
  else
    some (UniqueKeys.joinedKeys limit kind left.keys
      (right.keys.map fun keys => keys.map fun key => key.shift leftWidth)
      (left.uniqueOn (equiJoinColumns leftWidth condition).1)
      (right.uniqueOn (equiJoinColumns leftWidth condition).2))

/-- What is known of a projection, given what is known of its input. -/
def Derived.project (columns : List Scalar) (input : Derived) : Derived where
  keys :=
    if (UniqueKeys.passedColumns columns).isEmpty then some .empty
    else input.keys.map fun known => known.filterMap (UniqueKeys.projectKey? columns)
  unique wanted := input.unique (ColumnUniqueness.sourceColumns columns wanted)

/-- What the built-in rules find out about the operator at the root of a plan. -/
def Plan.derived (limit : Option Nat) : Plan → Derived
  | .scan _ _ keys => .ofKeys (some (.ofList keys))
  | .values _ rows => .ofKeys (if rows.length ≤ 1 then some (.singleton .empty) else none)
  | .filter input _ => input.derived limit
  | .project input columns _ => .project columns (input.derived limit)
  | .aggregate _ group _ _ =>
    .ofKeys (some (if group.isEmpty then .empty else .singleton (.range 0 group.size)))
  | .sort input _ => input.derived limit
  | .limit .. => .ofKeys none
  | .join left right kind condition _ =>
    .ofKeys (Derived.joinKeys limit left.width kind condition (left.derived limit)
      (right.derived limit))
  | .semiJoin left _ _ => .ofKeys (left.derived limit).keys
  | .correlate left _ _ _ _ => .ofKeys (left.derived limit).keys
  | .union .. => .ofKeys none
  | .extension .. => .ofKeys none

/-! ### Inquiries that come to a value -/

namespace Inquiry

variable {α β : Type} {replies : Replies}

/-- The inquiry ends with a value, given these replies. -/
def ComesTo (replies : Replies) (inquiry : Inquiry α) (value : α) : Prop :=
  (inquiry.run replies).result = .ok value

theorem comesTo_done (value : α) : (done value).ComesTo replies value := rfl

theorem ComesTo.bind {inquiry : Inquiry α} {next : α → Inquiry β} {value : α} {result : β}
    (h : inquiry.ComesTo replies value) (hnext : (next value).ComesTo replies result) :
    (inquiry.bind next).ComesTo replies result := by
  rw [ComesTo, run_bind, Outcome.result_bind_of_ok h]
  exact hnext

/-- What is known of an input reaches the rule that asks for it. -/
theorem comesTo_keysOfInput {i : Nat} {ignoreNulls : Bool} {keys : Option KeySet}
    (h : (replies.input i (.uniqueKeys ignoreNulls)).result = .ok (keys.map .keys)) :
    (keysOfInput i ignoreNulls).ComesTo replies keys := by
  rw [ComesTo, run_keysOfInput, Outcome.result_bind_of_ok h]
  cases keys <;> rfl

theorem comesTo_columnsUniqueOfInput {i : Nat} {columns : ColumnSet} {ignoreNulls : Bool}
    {unique : Option Bool}
    (h : (replies.input i (.columnsUnique columns ignoreNulls)).result = .ok (unique.map .bool)) :
    (columnsUniqueOfInput i columns ignoreNulls).ComesTo replies unique := by
  rw [ComesTo, run_columnsUniqueOfInput, Outcome.result_bind_of_ok h]
  cases unique <;> rfl

theorem comesTo_ownKeys {ignoreNulls : Bool} {keys : Option KeySet}
    (h : (replies.ownKeys ignoreNulls).result = .ok (keys.map .keys)) :
    (ownKeys ignoreNulls).ComesTo replies keys := by
  rw [ComesTo, run_ownKeys, Outcome.result_bind_of_ok h]
  cases keys <;> rfl

end Inquiry

/-! ### Rules over inputs that are known -/

/-- The replies say of an input exactly what is known of it. -/
structure Replies.Know (replies : Replies) (i : Nat) (d : Derived) : Prop where
  keys : ∀ ignoreNulls, (replies.input i (.uniqueKeys ignoreNulls)).result = .ok (d.keys.map .keys)
  unique : ∀ columns ignoreNulls,
    (replies.input i (.columnsUnique columns ignoreNulls)).result
      = .ok ((d.unique columns).map .bool)

namespace UniqueKeys

variable {replies : Replies}

theorem comesTo_uniqueOn {i : Nat} {d : Derived} (h : replies.Know i d) (columns : ColumnSet)
    (ignoreNulls : Bool) :
    (uniqueOn i d.keys columns ignoreNulls).ComesTo replies (d.uniqueOn columns) := by
  unfold uniqueOn Derived.uniqueOn
  cases d.keys with
  | some known => exact Inquiry.comesTo_done _
  | none => exact Inquiry.comesTo_columnsUniqueOfInput (h.unique columns ignoreNulls)

theorem comesTo_joinKeys {l r : Derived} (hl : replies.Know 0 l) (hr : replies.Know 1 r)
    (limit : Option Nat) (ignoreNulls : Bool) (left right : Plan) (kind : JoinKind)
    (condition : Scalar) (schema : Schema) :
    (joinKeys limit ignoreNulls (.join left right kind condition schema)).ComesTo replies
      (Derived.joinKeys limit left.width kind condition l r) := by
  -- Both sides are asked for their keys before anything is decided.
  refine (Inquiry.comesTo_keysOfInput (hl.keys ignoreNulls)).bind ?_
  refine (Inquiry.comesTo_keysOfInput (hr.keys ignoreNulls)).bind ?_
  unfold Derived.joinKeys
  split
  · exact Inquiry.comesTo_done _
  · refine (comesTo_uniqueOn hl _ ignoreNulls).bind ?_
    exact (comesTo_uniqueOn hr _ ignoreNulls).bind (Inquiry.comesTo_done _)

theorem comesTo_projectKeys {d : Derived} (h : replies.Know 0 d) (ignoreNulls : Bool)
    (input : Plan) (columns : List Scalar) (schema : Schema) :
    (projectKeys ignoreNulls (.project input columns schema)).ComesTo replies
      (d.project columns).keys := by
  simp only [projectKeys, Derived.project]
  split
  · exact Inquiry.comesTo_done _
  · exact (Inquiry.comesTo_keysOfInput (h.keys ignoreNulls)).bind (Inquiry.comesTo_done _)

/-- Where the inputs answer what is derived for them, the rule for an operator comes to the keys
that are derived for it. -/
theorem comesTo_ruleFor {limit : Option Nat} {plan : Plan}
    (h : ∀ i input, plan.inputs[i]? = some input → replies.Know i (input.derived limit))
    (ignoreNulls : Bool) :
    (ruleFor limit plan.kind ignoreNulls plan).ComesTo replies (plan.derived limit).keys := by
  cases plan with
  | scan | values | aggregate | limit | union | extension => exact Inquiry.comesTo_done _
  | filter input | sort input =>
      exact Inquiry.comesTo_keysOfInput ((h 0 input rfl).keys ignoreNulls)
  | semiJoin left right | correlate left right =>
      exact Inquiry.comesTo_keysOfInput ((h 0 left rfl).keys ignoreNulls)
  | project input columns schema =>
      exact comesTo_projectKeys (h 0 input rfl) ignoreNulls input columns schema
  | join left right kind condition schema =>
      exact comesTo_joinKeys (h 0 left rfl) (h 1 right rfl) limit ignoreNulls left right kind
        condition schema

end UniqueKeys

/-- Where moreover the operator answers what is derived for it, the rule for uniqueness comes to
what is derived. -/
theorem ColumnUniqueness.comesTo_ruleFor {replies : Replies} {limit : Option Nat} {plan : Plan}
    (h : ∀ i input, plan.inputs[i]? = some input → replies.Know i (input.derived limit))
    (hown : ∀ ignoreNulls,
      (replies.ownKeys ignoreNulls).result = .ok ((plan.derived limit).keys.map .keys))
    (columns : ColumnSet) (ignoreNulls : Bool) :
    (ruleFor plan.kind columns ignoreNulls plan).ComesTo replies
      ((plan.derived limit).unique columns) := by
  cases plan with
  | filter input | sort input =>
      exact Inquiry.comesTo_columnsUniqueOfInput ((h 0 input rfl).unique columns ignoreNulls)
  | project input exprs schema =>
      exact Inquiry.comesTo_columnsUniqueOfInput ((h 0 input rfl).unique _ ignoreNulls)
  | _ => exact (Inquiry.comesTo_ownKeys (hown ignoreNulls)).bind (Inquiry.comesTo_done _)

/-! ### The provider -/

namespace Provider

/-- Both requests about an operator succeed with what is known of it, wherever it stands. -/
structure Derives (p : Provider) (plan : Plan) (d : Derived) : Prop where
  keys : ∀ place ignoreNulls,
    (p.answerFrom plan place (.uniqueKeys ignoreNulls)).result = .ok (d.keys.map .keys)
  unique : ∀ place columns ignoreNulls,
    (p.answerFrom plan place (.columnsUnique columns ignoreNulls)).result
      = .ok ((d.unique columns).map .bool)

/-- A rule that asks an input is told what is known of the input. -/
theorem Derives.know {p : Provider} {plan input : Plan} {i : Nat} {d : Derived}
    (h : p.Derives input d) (hi : plan.inputs[i]? = some input) (place : Place)
    (own : Bool → Outcome (Option Answer)) :
    (⟨p.inputReplies plan place, own⟩ : Replies).Know i d := by
  constructor
  · intro ignoreNulls
    show (p.inputReplies plan place i (.uniqueKeys ignoreNulls)).result = _
    rw [inputReplies_of_getElem? hi]
    exact h.keys _ ignoreNulls
  · intro columns ignoreNulls
    show (p.inputReplies plan place i (.columnsUnique columns ignoreNulls)).result = _
    rw [inputReplies_of_getElem? hi]
    exact h.unique _ columns ignoreNulls

/-- **The built-in rules derive what `Plan.derived` says**, on every plan. The induction is over
the plan; at an operator, its unique keys come first, as the rule for uniqueness may ask for
them. -/
theorem builtin_derives (limit : Option Nat) (plan : Plan) :
    (builtin limit).Derives plan (plan.derived limit) := by
  induction plan using Plan.induction_on_inputs with
  | step plan ih =>
      have hinputs : ∀ place own i input, plan.inputs[i]? = some input →
          (⟨(builtin limit).inputReplies plan place, own⟩ : Replies).Know i
            (input.derived limit) := by
        intro place own i input hi
        exact (ih input (List.mem_of_getElem? hi)).know hi place own
      have hkeys : ∀ place ignoreNulls,
          ((builtin limit).answerFrom plan place (.uniqueKeys ignoreNulls)).result
            = .ok ((plan.derived limit).keys.map .keys) := by
        intro place ignoreNulls
        rw [answerFrom_uniqueKeys, Outcome.result_traced, consult_builtin_uniqueKeys]
        exact (UniqueKeys.comesTo_ruleFor (hinputs place _) ignoreNulls).bind
          (Inquiry.comesTo_done _)
      refine ⟨hkeys, ?_⟩
      intro place columns ignoreNulls
      rw [answerFrom_columnsUnique, Outcome.result_traced, consult_builtin_columnsUnique]
      exact (ColumnUniqueness.comesTo_ruleFor (hinputs place _) (hkeys place) columns
        ignoreNulls).bind (Inquiry.comesTo_done _)

/-- The unique keys that the built-in rules answer with, for either treatment of nulls. -/
theorem result_uniqueKeys_builtin (limit : Option Nat) (plan : Plan) (ignoreNulls : Bool) :
    ((builtin limit).uniqueKeys plan ignoreNulls).result = .ok (plan.derived limit).keys := by
  have h := (builtin_derives limit plan).keys [] ignoreNulls
  simp only [uniqueKeys, answer, Outcome.read, h]
  cases (plan.derived limit).keys <;> rfl

/-- The answer of the built-in rules to whether some columns are unique. -/
theorem result_columnsUnique_builtin (limit : Option Nat) (plan : Plan) (columns : ColumnSet)
    (ignoreNulls : Bool) :
    ((builtin limit).columnsUnique plan columns ignoreNulls).result
      = .ok ((plan.derived limit).unique columns) := by
  have h := (builtin_derives limit plan).unique [] columns ignoreNulls
  simp only [columnsUnique, answer, Outcome.read, h]
  cases (plan.derived limit).unique columns <;> rfl

end Provider

end QueryAnalysis
