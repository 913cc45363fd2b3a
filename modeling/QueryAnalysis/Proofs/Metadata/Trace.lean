import QueryAnalysis.Proofs.Metadata.Soundness

/-!
# The requests behind an answer

An outcome carries the events on the way to its result. `Outcome.asked` are the requests among them,
the one that is answered itself first. What an operator asks when its unique keys are wanted depends on
its shape. It asks nothing (`Plan.AsksNothing`), it asks one input for its keys (`Plan.PassesOn`), or
it is a join, which asks both inputs for their keys and then, if the keys of one side alone are known,
the other side about uniqueness of columns. `Plan.keys_induction` is the induction over these shapes,
and `Plan.AsksNothing.asked_uniqueKeys`, `Plan.PassesOn.asked_uniqueKeys` and
`Provider.asked_uniqueKeys_join` give the requests of each.
-/

namespace QueryAnalysis

variable {α β : Type}

/-! ### Requests of an outcome -/

/-- A request that is put to the operator at a place. -/
structure Asked where
  place : Place
  operator : Plan
  request : Request

namespace Outcome

/-- The requests that are put to operators, in order. -/
def asked (outcome : Outcome α) : List Asked :=
  outcome.events.filterMap fun
    | .asked place operator request => some ⟨place, operator, request⟩
    | .answered .. => none

variable {outcome : Outcome α} {next : α → Outcome β}

@[simp] theorem asked_done (value : α) : (done value).asked = [] := rfl

theorem asked_bind_of_ok {value : α} (h : outcome.result = .ok value) :
    (outcome.bind next).asked = outcome.asked ++ (next value).asked := by
  simp [bind, h, asked]

theorem asked_bind_of_error {error : Error} (h : outcome.result = .error error) :
    (outcome.bind next).asked = outcome.asked := by
  rw [bind_of_error h]
  rfl

/-- What asks nothing adds no request. -/
theorem asked_bind_of_silent (h : ∀ value, (next value).asked = []) :
    (outcome.bind next).asked = outcome.asked := by
  cases hresult : outcome.result with
  | ok value => rw [asked_bind_of_ok hresult, h, List.append_nil]
  | error error => exact asked_bind_of_error hresult

@[simp] theorem asked_read (outcome : Outcome α) (reading : α → Except Error β) :
    (outcome.read reading).asked = outcome.asked := rfl

@[simp] theorem asked_traced (place : Place) (operator : Plan) (request : Request)
    (outcome : Outcome (Option Answer)) :
    (traced place operator request outcome).asked
      = ⟨place, operator, request⟩ :: outcome.asked := by
  simp [asked, traced]

end Outcome

namespace Inquiry

variable {replies : Replies}

theorem ComesTo.asked_bind {inquiry : Inquiry α} {value : α} (h : inquiry.ComesTo replies value)
    (next : α → Inquiry β) :
    ((inquiry.bind next).run replies).asked
      = (inquiry.run replies).asked ++ ((next value).run replies).asked := by
  rw [run_bind, Outcome.asked_bind_of_ok h]

/-- Handing a result on asks nothing. -/
theorem asked_bind_done (inquiry : Inquiry α) (f : α → β) :
    ((inquiry.bind fun value => done (f value)).run replies).asked
      = (inquiry.run replies).asked := by
  rw [run_bind]
  exact Outcome.asked_bind_of_silent fun value => rfl

theorem asked_ofExcept (result : Except Error α) : ((ofExcept result).run replies).asked = [] := by
  cases result <;> rfl

theorem asked_keysOfInput (i : Nat) (ignoreNulls : Bool) :
    ((keysOfInput i ignoreNulls).run replies).asked
      = (replies.input i (.uniqueKeys ignoreNulls)).asked := by
  rw [run_keysOfInput]
  exact Outcome.asked_bind_of_silent fun _ => asked_ofExcept _

theorem asked_columnsUniqueOfInput (i : Nat) (columns : ColumnSet) (ignoreNulls : Bool) :
    ((columnsUniqueOfInput i columns ignoreNulls).run replies).asked
      = (replies.input i (.columnsUnique columns ignoreNulls)).asked := by
  rw [run_columnsUniqueOfInput]
  exact Outcome.asked_bind_of_silent fun _ => asked_ofExcept _

theorem asked_ownKeys (ignoreNulls : Bool) :
    ((ownKeys ignoreNulls).run replies).asked = (replies.ownKeys ignoreNulls).asked := by
  rw [run_ownKeys]
  exact Outcome.asked_bind_of_silent fun _ => asked_ofExcept _

end Inquiry

/-! ### Requests of the built-in rules -/

namespace Provider

/-- The requests that are made when an operator of a plan is asked under the built-in rules. -/
def requests (limit : Option Nat) (plan : Plan) (place : Place) (request : Request) : List Asked :=
  ((builtin limit).answerFrom plan place request).asked

variable (limit : Option Nat) (plan : Plan) (place : Place) (ignoreNulls : Bool)

/-- Asked for unique keys, an operator is asked that, and then its rule asks. -/
theorem asked_uniqueKeys :
    requests limit plan place (.uniqueKeys ignoreNulls)
      = ⟨place, plan, .uniqueKeys ignoreNulls⟩ ::
          ((UniqueKeys.ruleFor limit plan.kind ignoreNulls plan).run
            ⟨(builtin limit).inputReplies plan place, fun _ => .done none⟩).asked := by
  rw [requests, answerFrom_uniqueKeys, Outcome.asked_traced, consult_builtin_uniqueKeys,
    Inquiry.asked_bind_done]

theorem asked_columnsUnique (columns : ColumnSet) :
    requests limit plan place (.columnsUnique columns ignoreNulls)
      = ⟨place, plan, .columnsUnique columns ignoreNulls⟩ ::
          ((ColumnUniqueness.ruleFor plan.kind columns ignoreNulls plan).run
            ⟨(builtin limit).inputReplies plan place,
              fun flag => (builtin limit).answerFrom plan place (.uniqueKeys flag)⟩).asked := by
  rw [requests, answerFrom_columnsUnique, Outcome.asked_traced, consult_builtin_columnsUnique,
    Inquiry.asked_bind_done]

end Provider

namespace Plan

/-! ### Operators that ask nothing -/

/-- The keys of the operator are known or unknown without asking its inputs. -/
inductive AsksNothing : Plan → Prop
  | scan {table schema keys} : AsksNothing (.scan table schema keys)
  | values {schema rows} : AsksNothing (.values schema rows)
  | project {input columns schema} : (UniqueKeys.passedColumns columns).isEmpty = true →
      AsksNothing (.project input columns schema)
  | aggregate {input group aggregates schema} :
      AsksNothing (.aggregate input group aggregates schema)
  | limit {input count skipped} : AsksNothing (.limit input count skipped)
  | union {inputs all schema} : AsksNothing (.union inputs all schema)
  | extension {name schema inputs} : AsksNothing (.extension name schema inputs)

/-- The keys of the operator are those of this input, or made of them. -/
inductive PassesOn : Plan → Plan → Prop
  | filter {input condition} : PassesOn (.filter input condition) input
  | project {input columns schema} : (UniqueKeys.passedColumns columns).isEmpty = false →
      PassesOn (.project input columns schema) input
  | sort {input criteria} : PassesOn (.sort input criteria) input
  | semiJoin {left right condition} : PassesOn (.semiJoin left right condition) left
  | correlate {left right kind binding schema} :
      PassesOn (.correlate left right kind binding schema) left

/-- What holds of operators that ask nothing, and of others if it holds of the inputs that they ask,
holds of every plan. -/
@[elab_as_elim]
theorem keys_induction {motive : Plan → Prop}
    (nothing : ∀ plan, plan.AsksNothing → motive plan)
    (passing : ∀ plan input, plan.PassesOn input → motive input → motive plan)
    (join : ∀ left right kind condition schema, motive left → motive right →
      motive (.join left right kind condition schema))
    (plan : Plan) : motive plan := by
  induction plan using Plan.induction_on_inputs with
  | step plan ih =>
      cases plan with
      | scan => exact nothing _ .scan
      | values => exact nothing _ .values
      | aggregate => exact nothing _ .aggregate
      | limit => exact nothing _ .limit
      | union => exact nothing _ .union
      | extension => exact nothing _ .extension
      | filter input => exact passing _ input .filter (ih input (by simp [inputs]))
      | sort input => exact passing _ input .sort (ih input (by simp [inputs]))
      | semiJoin left => exact passing _ left .semiJoin (ih left (by simp [inputs]))
      | correlate left => exact passing _ left .correlate (ih left (by simp [inputs]))
      | project input columns =>
          cases hpassed : (UniqueKeys.passedColumns columns).isEmpty with
          | true => exact nothing _ (.project hpassed)
          | false => exact passing _ input (.project hpassed) (ih input (by simp [inputs]))
      | join left right kind condition schema =>
          exact join left right kind condition schema (ih left (by simp [inputs]))
            (ih right (by simp [inputs]))

section

variable {limit : Option Nat} {plan input : Plan} (place : Place) (ignoreNulls : Bool)

theorem AsksNothing.asked_uniqueKeys (h : plan.AsksNothing) :
    Provider.requests limit plan place (.uniqueKeys ignoreNulls)
      = [⟨place, plan, .uniqueKeys ignoreNulls⟩] := by
  rw [Provider.asked_uniqueKeys]
  cases h with
  | project hpassed =>
      simp [UniqueKeys.ruleFor, kind, UniqueKeys.projectKeys, hpassed, Inquiry.run]
  | _ => rfl

theorem PassesOn.getElem?_inputs (h : plan.PassesOn input) : plan.inputs[0]? = some input := by
  cases h <;> rfl

theorem PassesOn.asked_uniqueKeys (h : plan.PassesOn input) :
    Provider.requests limit plan place (.uniqueKeys ignoreNulls)
      = ⟨place, plan, .uniqueKeys ignoreNulls⟩ ::
          Provider.requests limit input (place ++ [0]) (.uniqueKeys ignoreNulls) := by
  rw [Provider.asked_uniqueKeys, Provider.requests,
    ← Provider.inputReplies_of_getElem? h.getElem?_inputs]
  congr 1
  cases h with
  | project hpassed =>
      simp only [UniqueKeys.ruleFor, kind, UniqueKeys.projectKeys, hpassed, Bool.false_eq_true,
        if_false]
      exact (Inquiry.asked_bind_done _ _).trans (Inquiry.asked_keysOfInput 0 ignoreNulls)
  | _ => exact Inquiry.asked_keysOfInput 0 ignoreNulls

/-- The keys of an operator that passes keys on are known just if those of the input are. -/
theorem PassesOn.keys_eq_none_iff (h : plan.PassesOn input) :
    (plan.derived limit).keys = none ↔ (input.derived limit).keys = none := by
  cases h with
  | project hpassed => simp [derived, Derived.project, hpassed]
  | _ => rfl

end

end Plan

/-! ### Joins -/

theorem Derived.joinKeys_eq_none_iff {limit : Option Nat} {leftWidth : Nat} {kind : JoinKind}
    {condition : Scalar} {l r : Derived} :
    joinKeys limit leftWidth kind condition l r = none ↔ l.keys = none ∧ r.keys = none := by
  unfold joinKeys
  split
  · next h => simpa using h
  · next h => simpa using h

/-- Requests that are made only where no keys are known. -/
def Derived.ifUnknown (d : Derived) (requests : List Asked) : List Asked :=
  if d.keys = none then requests else []

namespace UniqueKeys

variable {replies : Replies} {l r : Derived}

theorem asked_uniqueOn (i : Nat) (d : Derived) (columns : ColumnSet) (ignoreNulls : Bool) :
    ((uniqueOn i d.keys columns ignoreNulls).run replies).asked
      = d.ifUnknown (replies.input i (.columnsUnique columns ignoreNulls)).asked := by
  unfold uniqueOn Derived.ifUnknown
  cases d.keys with
  | none => exact Inquiry.asked_columnsUniqueOfInput i columns ignoreNulls
  | some known => rfl

/-- A join asks both sides for their keys. Unless neither side's are known, it goes on to find out
whether the columns that the condition equates are unique. -/
theorem asked_joinKeys (hl : replies.Know 0 l) (hr : replies.Know 1 r) (limit : Option Nat)
    (ignoreNulls : Bool) (left right : Plan) (kind : JoinKind) (condition : Scalar)
    (schema : Schema) :
    ((joinKeys limit ignoreNulls (.join left right kind condition schema)).run replies).asked
      = (replies.input 0 (.uniqueKeys ignoreNulls)).asked ++
          ((replies.input 1 (.uniqueKeys ignoreNulls)).asked ++
            if l.keys = none ∧ r.keys = none then []
            else
              l.ifUnknown (replies.input 0 (.columnsUnique
                  (equiJoinColumns left.width condition).1 ignoreNulls)).asked ++
                r.ifUnknown (replies.input 1 (.columnsUnique
                  (equiJoinColumns left.width condition).2 ignoreNulls)).asked) := by
  refine ((Inquiry.comesTo_keysOfInput (hl.keys ignoreNulls)).asked_bind _).trans ?_
  rw [Inquiry.asked_keysOfInput]
  congr 1
  refine ((Inquiry.comesTo_keysOfInput (hr.keys ignoreNulls)).asked_bind _).trans ?_
  rw [Inquiry.asked_keysOfInput]
  congr 1
  by_cases hnone : l.keys = none ∧ r.keys = none
  · rw [if_pos hnone, hnone.1, hnone.2]
    rfl
  · have hsome : ¬ (l.keys.isNone && r.keys.isNone) = true := by simpa using hnone
    rw [if_neg hnone, if_neg hsome]
    refine ((comesTo_uniqueOn hl _ ignoreNulls).asked_bind _).trans ?_
    rw [asked_uniqueOn]
    congr 1
    exact (Inquiry.asked_bind_done _ _).trans (asked_uniqueOn ..)

end UniqueKeys

/-- The same with the answers of the inputs. -/
theorem Provider.asked_uniqueKeys_join (limit : Option Nat) (left right : Plan) (kind : JoinKind)
    (condition : Scalar) (schema : Schema) (place : Place) (ignoreNulls : Bool) :
    requests limit (.join left right kind condition schema) place (.uniqueKeys ignoreNulls)
      = ⟨place, .join left right kind condition schema, .uniqueKeys ignoreNulls⟩ ::
          (requests limit left (place ++ [0]) (.uniqueKeys ignoreNulls) ++
            (requests limit right (place ++ [1]) (.uniqueKeys ignoreNulls) ++
              if (left.derived limit).keys = none ∧ (right.derived limit).keys = none then []
              else
                (left.derived limit).ifUnknown (requests limit left (place ++ [0])
                    (.columnsUnique (equiJoinColumns left.width condition).1 ignoreNulls)) ++
                  (right.derived limit).ifUnknown (requests limit right (place ++ [1])
                    (.columnsUnique (equiJoinColumns left.width condition).2 ignoreNulls)))) := by
  have hleft : (Plan.join left right kind condition schema).inputs[0]? = some left := rfl
  have hright : (Plan.join left right kind condition schema).inputs[1]? = some right := rfl
  have hl := (builtin_derives limit left).know hleft place fun _ => .done none
  have hr := (builtin_derives limit right).know hright place fun _ => .done none
  rw [asked_uniqueKeys]
  exact congrArg (List.cons _)
    (UniqueKeys.asked_joinKeys hl hr limit ignoreNulls left right kind condition schema)

/-! ### Uniqueness of columns -/

/-- Asked about uniqueness of columns, an operator asks its input about some columns, or it asks
itself for its keys. -/
theorem Provider.asked_columnsUnique_cases (limit : Option Nat) (plan : Plan) :
    (∃ input, ∃ sources : ColumnSet → ColumnSet, plan.inputs[0]? = some input ∧
        ((plan.derived limit).keys = none → (input.derived limit).keys = none) ∧
        ∀ place columns ignoreNulls,
          requests limit plan place (.columnsUnique columns ignoreNulls)
            = ⟨place, plan, .columnsUnique columns ignoreNulls⟩ ::
                requests limit input (place ++ [0])
                  (.columnsUnique (sources columns) ignoreNulls)) ∨
      ∀ place columns ignoreNulls,
        requests limit plan place (.columnsUnique columns ignoreNulls)
          = ⟨place, plan, .columnsUnique columns ignoreNulls⟩ ::
              requests limit plan place (.uniqueKeys ignoreNulls) := by
  cases plan with
  | filter input | sort input =>
      refine .inl ⟨input, id, rfl, id, fun place columns ignoreNulls => ?_⟩
      rw [asked_columnsUnique]
      exact congrArg (List.cons _) (Inquiry.asked_columnsUniqueOfInput 0 columns ignoreNulls)
  | project input exprs =>
      refine .inl ⟨input, ColumnUniqueness.sourceColumns exprs, rfl, fun hnone => ?_,
        fun place columns ignoreNulls => ?_⟩
      · simp only [Plan.derived, Derived.project] at hnone
        split at hnone
        · exact absurd hnone (by simp)
        · exact Option.map_eq_none_iff.mp hnone
      · rw [asked_columnsUnique]
        exact congrArg (List.cons _) (Inquiry.asked_columnsUniqueOfInput 0 _ ignoreNulls)
  | _ =>
      refine .inr fun place columns ignoreNulls => ?_
      rw [asked_columnsUnique]
      exact congrArg (List.cons _)
        ((Inquiry.asked_bind_done _ _).trans (Inquiry.asked_ownKeys ignoreNulls))

end QueryAnalysis
