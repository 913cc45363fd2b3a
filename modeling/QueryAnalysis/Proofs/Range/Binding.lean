import QueryAnalysis.Proofs.Range.Analysis

/-!
# Binding parameters

When a statement is executed every parameter stands for a literal. `Scalar.bind` puts the literals in
place of the parameters of a predicate, and `RangeConstraint.bind` in place of those of a range.

The analysis compares endpoints before anything is bound, and a parameter with itself alone. What it
found then is still so after binding (`Endpoint.compare?_bind`), so that binding what narrowing left is
what narrowing leaves of bound endpoints (`Endpoint.tightest?_bind`). A narrowed interval that is bound
admits what the bound intervals of all terms admit (`RangePolicy.admits_bind_narrowed_iff`).
-/

namespace QueryAnalysis

variable {S : Literal → Prop} {v : Literal} {role : Role} {s : Nat → Literal}

/-! ### Literals for parameters -/

/-- The coordinate with a literal in place of a parameter. -/
def Coordinate.bind (s : Nat → Literal) : Coordinate → Coordinate
  | literal value => literal value
  | parameter index => literal (s index)

/-- The endpoint with a literal in place of a parameter. -/
def Endpoint.bind (s : Nat → Literal) : Endpoint → Endpoint
  | negInfinity => negInfinity
  | posInfinity => posInfinity
  | finite role strictness coordinate => finite role strictness (coordinate.bind s)

/-- The interval with literals in place of parameters. -/
def Interval.bind (s : Nat → Literal) (i : Interval) : Interval :=
  ⟨i.lower.bind s, i.upper.bind s⟩

/-- The constraint with literals in place of parameters. -/
def RangeConstraint.bind (s : Nat → Literal) (c : RangeConstraint) : RangeConstraint :=
  { c with interval := c.interval.bind s }

namespace Scalar

mutual

/-- The expression with literals in place of parameters. -/
def bind (s : Nat → Literal) : Scalar → Scalar
  | column ordinal => column ordinal
  | literal value => literal value
  | parameter index => literal (s index)
  | binary left op right => binary (left.bind s) op (right.bind s)
  | isNull operand => isNull (operand.bind s)
  | aggregate function args distinct => aggregate function (bindAll s args) distinct
  | call name args => call name (bindAll s args)

/-- The expressions with literals in place of parameters. -/
def bindAll (s : Nat → Literal) : List Scalar → List Scalar
  | [] => []
  | arg :: args => arg.bind s :: bindAll s args

end

end Scalar

/-! ### Comparing before and after -/

/-- Of the parameters only the same one can be compared with a parameter. -/
theorem Coordinate.eq_of_compare?_parameter {i j : Nat} {x : Ordering}
    (h : (parameter i).compare? (parameter j) = some x) : i = j ∧ x = .eq := by
  have hsame : (if i = j then some Ordering.eq else none) = some x := h
  split at hsame
  · next heq => exact ⟨heq, (Option.some.inj hsame).symm⟩
  · exact absurd hsame (by simp)

/-- Coordinates compare as they did before they were bound, if the literals equal themselves. -/
theorem Coordinate.compare?_bind (hs : ∀ i, (s i).compare? (s i) = some .eq) {c c' : Coordinate}
    {x : Ordering} (h : c.compare? c' = some x) : (c.bind s).compare? (c'.bind s) = some x := by
  cases c with
  | literal a =>
      cases c' with
      | literal b => exact h
      | parameter j => exact absurd h (by simp [compare?])
  | parameter i =>
      cases c' with
      | literal b => exact absurd h (by simp [compare?])
      | parameter j =>
          obtain ⟨rfl, rfl⟩ := eq_of_compare?_parameter h
          exact hs i

namespace Endpoint

@[simp] theorem bind_free (s : Nat → Literal) (role : Role) : (free role).bind s = free role := by
  cases role <;> rfl

variable (hs : ∀ i, (s i).compare? (s i) = some .eq)

include hs

theorem compare?_bind {e e' : Endpoint} {x : Ordering} (h : e.compare? e' = some x) :
    (e.bind s).compare? (e'.bind s) = some x := by
  cases e with
  | negInfinity | posInfinity => cases e' <;> exact h
  | finite r t c =>
      cases e' with
      | negInfinity | posInfinity => exact h
      | finite r' t' c' =>
          obtain ⟨y, hy, rfl⟩ := Option.map_eq_some_iff.mp h
          exact Option.map_eq_some_iff.mpr ⟨y, Coordinate.compare?_bind hs hy, rfl⟩

theorem tighter?_bind {wins : Ordering} {current candidate e : Endpoint}
    (h : tighter? wins current candidate = some e) :
    tighter? wins (current.bind s) (candidate.bind s) = some (e.bind s) := by
  obtain ⟨order, horder, rfl⟩ := Option.map_eq_some_iff.mp h
  refine Option.map_eq_some_iff.mpr ⟨order, compare?_bind hs horder, ?_⟩
  split <;> rfl

/-- The tightest of several endpoints stays the tightest. -/
theorem tightest?_bind {endpoints : List Endpoint} {e : Endpoint}
    (h : tightest? role endpoints = some e) :
    tightest? role (endpoints.map (bind s)) = some (e.bind s) := by
  rw [tightest?, ← bind_free s role]
  refine foldlM_tighter?_induct (motive := fun e endpoints e' =>
    (endpoints.map (bind s)).foldlM (tighter? role.inward) (e.bind s) = some (e'.bind s))
    (fun _ => rfl) ?_ h
  intro e e' e'' candidate endpoints hnext ih
  rw [List.map_cons, List.foldlM_cons, tighter?_bind hs hnext]
  exact ih

end Endpoint

theorem Interval.endpoint_bind (i : Interval) : (i.bind s).endpoint role = (i.endpoint role).bind s := by
  cases role <;> rfl

/-- A narrowed interval that is bound admits what the bound intervals of all terms admit. -/
theorem RangePolicy.admits_bind_narrowed_iff {policy : RangePolicy} {domain : Domain}
    {terms : List Term} {j : Interval} (hs : ∀ i, (s i).compare? (s i) = some .eq)
    (h : terms.foldlM (policy.narrow? domain) .unconstrained = some j) (hv : v.CoherentAt S)
    (hon : ∀ t ∈ terms, ((policy.termInterval domain t).bind s).On S) :
    (j.bind s).Admits v ↔ ∀ t ∈ terms, ((policy.termInterval domain t).bind s).Admits v := by
  have htightest : ∀ role, Endpoint.tightest? role
      ((terms.map fun t => (policy.termInterval domain t).bind s).map fun i => i.endpoint role)
        = some ((j.bind s).endpoint role) := by
    intro role
    have hbound := Endpoint.tightest?_bind hs (tightest?_of_foldlM h role)
    simpa only [List.map_map, Function.comp_def, Interval.endpoint_bind] using hbound
  rw [Interval.admits_iff_of_tightest? hv (List.forall_mem_map.mpr hon) htightest,
    List.forall_mem_map]

end QueryAnalysis
