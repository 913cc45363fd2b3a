import QueryAnalysis.Proofs.Range.Binding

/-!
# Terms at parameters

A term of a comparison with a parameter is never impossible and does not require null, and its
interval ends at the parameter (`Term.OfParameter`). Endpoints at different parameters cannot be
compared, so that what narrowing leaves ends, on each side, at the one parameter of all terms that
bound that side (`RangePolicy.parameter?_endpoint`). If a term bounds both sides then all terms are at
its parameter, and a null-safe one does (`RangePolicy.eq_of_nullSafe`).
-/

namespace QueryAnalysis

variable {policy : RangePolicy} {domain : Domain} {terms : List Term} {op : BinaryOperator}
  {p : Nat} {t : Term} {role : Role} {s : Nat → Literal} {v : Literal}

/-! ### Endpoints at one parameter -/

namespace Endpoint

variable {e current candidate : Endpoint}

/-- The endpoint bounds nothing, or it bounds from its side at a parameter. -/
def AtParameter (role : Role) (e : Endpoint) : Prop :=
  e = free role ∨ ∃ st p, e = .finite role st (.parameter p)

/-- Bound, the endpoint stands at a literal. -/
theorem AtParameter.on_bind {S : Literal → Prop} (h : e.AtParameter role) (hs : ∀ i, S (s i)) :
    (e.bind s).On role S := by
  rcases h with rfl | ⟨st, p, rfl⟩
  · rw [bind_free]
    exact on_free role
  · exact ⟨rfl, hs p⟩

theorem AtParameter.of_finite {r : Role} {st : Strictness} {c : Coordinate}
    (h : (finite r st c).AtParameter role) : ∃ p, r = role ∧ c = .parameter p := by
  rcases h with hfree | ⟨st', p, hfinite⟩
  · exact absurd hfree (by cases role <;> simp [free])
  · obtain ⟨rfl, -, rfl⟩ := finite.inj hfinite
    exact ⟨p, rfl, rfl⟩

theorem AtParameter.role_eq (h : e.AtParameter role) : e.role = role := by
  rcases h with rfl | ⟨st, p, rfl⟩
  · cases role <;> rfl
  · rfl

theorem parameter?_eq_some_iff : e.parameter? = some p ↔ ∃ r st, e = .finite r st (.parameter p) := by
  unfold parameter?
  split
  · simp
  · next hother => simpa using fun r st he => hother r st p he

/-- Two endpoints of which one is the tighter are at its parameter, unless they bound nothing. -/
theorem parameter?_of_tighter? (hcurrent : current.AtParameter role)
    (hcandidate : candidate.AtParameter role)
    (h : tighter? role.inward current candidate = some e) :
    (current = free role ∨ current.parameter? = e.parameter?) ∧
      (candidate = free role ∨ candidate.parameter? = e.parameter?) := by
  have hsame : current = free role ∨ candidate = free role ∨
      current.parameter? = candidate.parameter? := by
    rcases hcurrent with hfree | ⟨st, p, rfl⟩
    · exact .inl hfree
    rcases hcandidate with hfree | ⟨st', q, rfl⟩
    · exact .inr (.inl hfree)
    -- Only endpoints at the same parameter can be compared.
    obtain ⟨order, horder, -⟩ := Option.map_eq_some_iff.mp h
    obtain ⟨y, hy, -⟩ := Option.map_eq_some_iff.mp horder
    obtain ⟨rfl, -⟩ := Coordinate.eq_of_compare?_parameter hy
    exact .inr (.inr rfl)
  rcases eq_or_eq_of_tighter? h with rfl | rfl
  · refine ⟨?_, .inr rfl⟩
    rcases hsame with hfree | hfree | hsame
    · exact .inl hfree
    · exact .inl (eq_free_of_tighter? (hfree ▸ h)).1
    · exact .inr hsame
  · refine ⟨.inr rfl, ?_⟩
    rcases hsame with hfree | hfree | hsame
    · exact .inl (eq_free_of_tighter? (hfree ▸ h)).2
    · exact .inl hfree
    · exact .inr hsame.symm

/-- Several endpoints are at the parameter of the tightest one, unless they bound nothing. -/
theorem parameter?_of_tightest? {endpoints : List Endpoint}
    (hat : ∀ x ∈ endpoints, x.AtParameter role) (h : tightest? role endpoints = some e) :
    ∀ x ∈ endpoints, x = free role ∨ x.parameter? = e.parameter? := by
  have hfold := foldlM_tighter?_induct
    (motive := fun e endpoints e' => e.AtParameter role → (∀ x ∈ endpoints, x.AtParameter role) →
      ∀ x ∈ e :: endpoints, x = free role ∨ x.parameter? = e'.parameter?)
    ?_ ?_ h (.inl rfl) hat
  · exact fun x hx => hfold x (List.mem_cons_of_mem _ hx)
  · intro e _ _ x hx
    rw [List.mem_singleton.mp hx]
    exact .inr rfl
  · intro e e' e'' candidate endpoints hnext ih he hat
    obtain ⟨hcandidate, hrest⟩ := List.forall_mem_cons.mp hat
    obtain ⟨hcurrent', hcandidate'⟩ := parameter?_of_tighter? he hcandidate hnext
    have he' : e'.AtParameter role := by
      rcases eq_or_eq_of_tighter? hnext with rfl | rfl
      · exact hcandidate
      · exact he
    obtain ⟨hhead, htail⟩ := List.forall_mem_cons.mp (ih he' hrest)
    refine List.forall_mem_cons.mpr ⟨?_, List.forall_mem_cons.mpr ⟨?_, htail⟩⟩
    · rcases hhead with hfree | hhead
      · exact .inl (eq_free_of_tighter? (hfree ▸ hnext)).1
      · exact hcurrent'.imp id fun hsame => hsame.trans hhead
    · rcases hhead with hfree | hhead
      · exact .inl (eq_free_of_tighter? (hfree ▸ hnext)).2
      · exact hcandidate'.imp id fun hsame => hsame.trans hhead

end Endpoint

/-- Bound, an interval between parameters lies between literals. -/
theorem Interval.on_bind {S : Literal → Prop} {i : Interval}
    (hat : ∀ role, (i.endpoint role).AtParameter role) (hs : ∀ p, S (s p)) : (i.bind s).On S :=
  Interval.on_iff.mpr fun role => endpoint_bind i ▸ (hat role).on_bind hs

/-! ### Terms at parameters -/

/-- Rounding leaves parameters where they are. -/
theorem RangePolicy.endpoint_parameter (role : Role) (st : Strictness) (p : Nat) :
    policy.endpoint domain role st (.parameter p) = .finite role st (.parameter p) :=
  endpoint_of_integral?_eq_none rfl

/-- The term of a comparison with a parameter. -/
inductive Term.OfParameter : BinaryOperator → Nat → Term → Prop
  | same {p : Nat} : OfParameter .isNotDistinctFrom p (.point (.parameter p) true)
  | equal {p : Nat} : OfParameter .eq p (.point (.parameter p) false)
  | above {p : Nat} : OfParameter .gt p (.lower (.parameter p) .opened)
  | atLeast {p : Nat} : OfParameter .gte p (.lower (.parameter p) .closed)
  | below {p : Nat} : OfParameter .lt p (.upper (.parameter p) .opened)
  | atMost {p : Nat} : OfParameter .lte p (.upper (.parameter p) .closed)

namespace Term.OfParameter

theorem of_ofComparison? (h : ofComparison? op (.parameter p) = some t) : OfParameter op p t := by
  cases op with
  | neq | and | or => exact absurd h (by simp [ofComparison?])
  | _ =>
      obtain rfl := Option.some.inj h
      constructor

theorem unique {op' : BinaryOperator} {p' : Nat} (h : OfParameter op p t)
    (h' : OfParameter op' p' t) : op = op' ∧ p = p' := by
  cases h <;> cases h' <;> exact ⟨rfl, rfl⟩

theorem ne_contradiction (h : OfParameter op p t) : t ≠ .contradiction := by
  cases h <;> simp

theorem requiresNull_eq_false (h : OfParameter op p t) : t.requiresNull = false := by
  cases h <;> rfl

theorem mayMatchNull_iff (h : OfParameter op p t) :
    t.mayMatchNull = true ↔ op = .isNotDistinctFrom := by
  cases h <;> simp [mayMatchNull]

theorem coordinate?_eq (h : OfParameter op p t) : t.coordinate? = some (.parameter p) := by
  cases h <;> rfl

/-- An endpoint of the term's interval is at the parameter, or bounds nothing. -/
theorem endpoint_cases (h : OfParameter op p t) (policy : RangePolicy) (domain : Domain)
    (role : Role) :
    (policy.termInterval domain t).endpoint role = Endpoint.free role ∨
      ∃ st, (policy.termInterval domain t).endpoint role = .finite role st (.parameter p) := by
  rcases RangePolicy.endpoint_termInterval policy domain t role with hfree | ⟨st, c, hc, hst⟩
  · exact .inl hfree
  · obtain rfl := Option.some.inj (hc.symm.trans h.coordinate?_eq)
    exact .inr ⟨st, hst.trans (RangePolicy.endpoint_parameter role st p)⟩

/-- On some side the term's interval is bounded. -/
theorem exists_endpoint (h : OfParameter op p t) (policy : RangePolicy) (domain : Domain) :
    ∃ role st, (policy.termInterval domain t).endpoint role = .finite role st (.parameter p) := by
  cases h with
  | same | equal | above | atLeast => exact ⟨.lower, _, RangePolicy.endpoint_parameter _ _ _⟩
  | below | atMost => exact ⟨.upper, _, RangePolicy.endpoint_parameter _ _ _⟩

/-- Bound, the term's interval admits the values for which the comparison holds, null being an
ordinary value. -/
theorem admits_bind_iff (h : OfParameter op p t) :
    ((policy.termInterval domain t).bind s).Admits v ↔
      ∃ x, v.compare? (s p) = some x ∧ op.Accepts x := by
  have hbind : ∀ role st, (policy.endpoint domain role st (.parameter p)).bind s
      = .finite role st (.literal (s p)) := by
    intro role st
    rw [RangePolicy.endpoint_parameter]
    rfl
  have hlower : ∀ {st}, ((policy.termInterval domain (.lower (.parameter p) st)).bind s).Admits v ↔
      ∃ x, v.compare? (s p) = some x ∧ st.Allows .lower x := by
    intro st
    rw [← Endpoint.admits_finite_iff, ← hbind]
    exact Interval.admits_lower_alone_iff
  have hupper : ∀ {st}, ((policy.termInterval domain (.upper (.parameter p) st)).bind s).Admits v ↔
      ∃ x, v.compare? (s p) = some x ∧ st.Allows .upper x := by
    intro st
    rw [← Endpoint.admits_finite_iff, ← hbind]
    exact Interval.admits_upper_alone_iff
  have hpoint : ∀ {nullSafe},
      ((policy.termInterval domain (.point (.parameter p) nullSafe)).bind s).Admits v ↔
        v.compare? (s p) = some .eq := by
    intro nullSafe
    rw [← Interval.admits_closed_self_iff, ← hbind, ← hbind]
    rfl
  cases h with
  | same | equal =>
      rw [hpoint]
      simp [BinaryOperator.Accepts]
  | above | atLeast =>
      rw [hlower]
      simp [BinaryOperator.Accepts, Strictness.Allows, Role.inward, Role.outward]
  | below | atMost =>
      rw [hupper]
      simp [BinaryOperator.Accepts, Strictness.Allows, Role.inward, Role.outward]

theorem atParameter (h : OfParameter op p t) (policy : RangePolicy) (domain : Domain) (role : Role) :
    ((policy.termInterval domain t).endpoint role).AtParameter role :=
  (h.endpoint_cases policy domain role).imp id fun ⟨st, hst⟩ => ⟨st, p, hst⟩

end Term.OfParameter

/-- The comparison that the term stands for is true of a value, the parameter being bound. -/
def Term.TrueOf (s : Nat → Literal) (v : Literal) (t : Term) : Prop :=
  ∃ op p, OfParameter op p t ∧ op.TrueOf Literal.compare? v (s p)

/-- Null aside, the truth of a term is what its interval says. -/
theorem Term.OfParameter.trueOf_iff (h : OfParameter op p t) (policy : RangePolicy)
    (domain : Domain) :
    t.TrueOf s v ↔ ((policy.termInterval domain t).bind s).Admits v ∧
      (op = .isNotDistinctFrom ∨ (v ≠ .null ∧ s p ≠ .null)) := by
  rw [h.admits_bind_iff, ← BinaryOperator.trueOf_compare?_iff]
  constructor
  · rintro ⟨op', p', h', htrue⟩
    obtain ⟨rfl, rfl⟩ := h.unique h'
    exact htrue
  · exact fun htrue => ⟨op, p, h, htrue⟩

/-! ### The narrowed interval -/

namespace RangePolicy

/-- A builder is narrowed to an interval at parameters as it is, or to nothing where the endpoints have
crossed. A point at a parameter stays where it is, and leaves the null semantics as it is. -/
theorem narrowedTo_eq (policy : RangePolicy) (domain : Domain) (semantics : NullSemantics)
    {j : Interval} (hat : ∀ role, (j.endpoint role).AtParameter role) :
    (policy.builderWith domain semantics).narrowedTo j
        = { policy.builderWith domain semantics with interval := j } ∨
      (j.lower.compare? j.upper = some .gt ∧
        (policy.builderWith domain semantics).narrowedTo j
          = (policy.builderWith domain semantics).apply .empty) := by
  rcases RangeBuilder.narrowedTo_cases (policy.builderWith domain semantics) j with
    ⟨hcrossed, heq⟩ | ⟨c, hpoint, heq⟩ | ⟨-, heq⟩
  · refine .inr ⟨hcrossed.resolve_left ?_, heq⟩
    simp [Interval.isEmpty, show j.lower.role = .lower from (hat .lower).role_eq,
      show j.upper.role = .upper from (hat .upper).role_eq]
  · left
    obtain ⟨r, r', c', rfl, hsame⟩ := Interval.of_pointCoordinate? hpoint
    obtain ⟨p, rfl, rfl⟩ := (hat .lower).of_finite
    obtain ⟨q, rfl, rfl⟩ := (hat .upper).of_finite
    obtain ⟨rfl, -⟩ := Coordinate.eq_of_compare?_parameter hsame
    have hstays : ∀ side, (policy.builderWith domain semantics).endpoint side .closed (.parameter p)
        = .finite side .closed (.parameter p) :=
      fun side => endpoint_parameter side .closed p
    rw [heq, RangeBuilder.setPoint, hstays, hstays]
    rfl
  · exact .inl heq

variable (hterms : ∀ t ∈ terms, ∃ op p, Term.OfParameter op p t)

include hterms

theorem contradictory_eq_false : contradictory terms = false := by
  refine contradictory_eq_false_iff.mpr ⟨?_, .inr ?_⟩
  · intro t ht
    obtain ⟨op, p, hof⟩ := hterms t ht
    exact hof.ne_contradiction
  · intro t ht
    obtain ⟨op, p, hof⟩ := hterms t ht
    exact hof.requiresNull_eq_false

section Narrowed

variable {j : Interval} (hfold : terms.foldlM (policy.narrow? domain) .unconstrained = some j)

include hfold

/-- A term's parameter is where the narrowed interval ends on the side that the term bounds. -/
theorem parameter?_endpoint (ht : t ∈ terms) {st : Strictness}
    (h : (policy.termInterval domain t).endpoint role = .finite role st (.parameter p)) :
    (j.endpoint role).parameter? = some p := by
  have hat : ∀ x ∈ terms.map fun t => (policy.termInterval domain t).endpoint role,
      x.AtParameter role := by
    refine List.forall_mem_map.mpr fun t ht => ?_
    obtain ⟨op, p, hof⟩ := hterms t ht
    exact hof.atParameter policy domain role
  have hshared := List.forall_mem_map.mp
    (Endpoint.parameter?_of_tightest? hat (tightest?_of_foldlM hfold role)) t ht
  rw [h] at hshared
  rcases hshared with hfree | hshared
  · exact absurd hfree (by cases role <;> simp [Endpoint.free])
  · exact hshared.symm

/-- The narrowed interval is bounded at the parameter of each term, on some side. -/
theorem exists_endpoint_narrowed (ht : t ∈ terms) (hof : Term.OfParameter op p t) :
    ∃ role r st, j.endpoint role = .finite r st (.parameter p) := by
  obtain ⟨role, st, hst⟩ := hof.exists_endpoint policy domain
  exact ⟨role, Endpoint.parameter?_eq_some_iff.mp (parameter?_endpoint hterms hfold ht hst)⟩

/-- The narrowed interval ends where some term does. -/
theorem endpoint_narrowed_cases (role : Role) : j.endpoint role = Endpoint.free role ∨
    ∃ t ∈ terms, ∃ op p st, Term.OfParameter op p t ∧
      j.endpoint role = .finite role st (.parameter p) := by
  rcases exists_term_of_endpoint hfold role with hfree | ⟨t, ht, heq⟩
  · exact .inl hfree
  · obtain ⟨op, p, hof⟩ := hterms t ht
    rw [← heq]
    rcases hof.endpoint_cases policy domain role with hfree | ⟨st, hst⟩
    · exact .inl hfree
    · exact .inr ⟨t, ht, op, p, st, hof, hst⟩

theorem atParameter_narrowed (role : Role) : (j.endpoint role).AtParameter role :=
  (endpoint_narrowed_cases hterms hfold role).imp id fun ⟨_, _, _, p, st, _, hst⟩ => ⟨st, p, hst⟩

/-- Bound, the narrowed interval is at null where a parameter of the terms is bound to null. -/
theorem exists_isNull_bind_iff : (∃ role, ((j.bind s).endpoint role).isNull = true) ↔
    ∃ t ∈ terms, ∃ op p, Term.OfParameter op p t ∧ s p = .null := by
  constructor
  · rintro ⟨role, hnull⟩
    rw [Interval.endpoint_bind] at hnull
    rcases endpoint_narrowed_cases hterms hfold role with hfree | ⟨t, ht, op, p, st, hof, hst⟩
    · rw [hfree, Endpoint.bind_free] at hnull
      cases role <;> exact absurd hnull Bool.false_ne_true
    · rw [hst] at hnull
      have hnull : (Coordinate.literal (s p)).isNull = true := hnull
      exact ⟨t, ht, op, p, hof, Coordinate.literal.inj (Coordinate.eq_null_of_isNull hnull)⟩
  · rintro ⟨t, ht, op, p, hof, hnull⟩
    obtain ⟨role, r, st, hj⟩ := exists_endpoint_narrowed hterms hfold ht hof
    refine ⟨role, ?_⟩
    rw [Interval.endpoint_bind, hj]
    show (s p).isNull = true
    rw [hnull]
    rfl

/-- Where one term is null-safe, all are at its parameter: it bounds both sides. -/
theorem eq_of_nullSafe {t₀ : Term} {q : Nat} (ht₀ : t₀ ∈ terms)
    (hof₀ : Term.OfParameter .isNotDistinctFrom q t₀) (ht : t ∈ terms) (hof : Term.OfParameter op p t) :
    p = q := by
  obtain ⟨role, st, hst⟩ := hof.exists_endpoint policy domain
  have hboth : (policy.termInterval domain t₀).endpoint role = .finite role .closed (.parameter q) := by
    cases hof₀
    cases role <;> exact endpoint_parameter _ _ _
  have hp := parameter?_endpoint hterms hfold ht hst
  have hq := parameter?_endpoint hterms hfold ht₀ hboth
  exact Option.some.inj (hp.symm.trans hq)

/-- Bound, the narrowed interval is still bounded. -/
theorem bind_narrowed_ne_unconstrained (hne : terms ≠ []) : j.bind s ≠ .unconstrained := by
  intro hfree
  obtain ⟨t, ht⟩ := List.exists_mem_of_ne_nil terms hne
  obtain ⟨op, p, hof⟩ := hterms t ht
  obtain ⟨role, r, st, hj⟩ := exists_endpoint_narrowed hterms hfold ht hof
  have hend : (j.endpoint role).bind s = Interval.unconstrained.endpoint role := by
    rw [← Interval.endpoint_bind, hfree]
  rw [hj] at hend
  cases role <;> simp [Endpoint.bind, Interval.endpoint, Interval.unconstrained] at hend

end Narrowed

end RangePolicy

end QueryAnalysis
