import QueryAnalysis.Proofs.Range.Evaluation
import QueryAnalysis.Proofs.Range.Narrowing
import QueryAnalysis.Proofs.Range.Truth

/-!
# Ranges of predicates are exact

A term is exact: for a value other than null, its interval admits the value just if the comparison
that the term is taken from is true of it (`RangePolicy.trueOf_iff_admits`). The range of several
terms is what narrowing leaves, unless they contradict each other or endpoints have crossed, where
nothing is left; and a range that collapses to a point stays what it is
(`RangePolicy.admits_narrowedTo_iff`).

`RangePolicy.analyze_exact` puts it together for a predicate without parameters: a value other than
null is in the evaluation of the range just if every conjunct is true of it.
-/

namespace QueryAnalysis

variable {S : Literal → Prop} {v : Literal} {role : Role}

namespace RangePolicy

variable {policy : RangePolicy} {domain : Domain} {terms : List Term}

/-! ### Terms of comparisons -/

section Terms

variable {op : BinaryOperator} {l : Literal} {t : Term}

/-- An endpoint of a term's interval is at the literal of the comparison, or bounds nothing. -/
theorem endpoint_termInterval_cases (h : Term.Of op l t) (role : Role) :
    (policy.termInterval domain t).endpoint role = Endpoint.free role ∨
      ∃ s, (policy.termInterval domain t).endpoint role
        = policy.endpoint domain role s (.literal l) := by
  rcases endpoint_termInterval policy domain t role with hfree | ⟨s, c, hc, hs⟩
  · exact .inl hfree
  · obtain rfl : c = .literal l := by
      cases h with
      | never => exact absurd hc (by simp [Term.coordinate?])
      | _ => exact (Option.some.inj hc).symm
    exact .inr ⟨s, hs⟩

theorem on_termInterval (h : Term.Of op l t)
    (hon : ∀ role s, (policy.endpoint domain role s (.literal l)).On role S) :
    (policy.termInterval domain t).On S := by
  refine Interval.on_iff.mpr ?_
  intro role
  rcases endpoint_termInterval_cases h role with hfree | ⟨s, hs⟩
  · rw [hfree]
    exact Endpoint.on_free role
  · rw [hs]
    exact hon role s

/-- An endpoint stands at its literal or at an integer. -/
theorem on_endpoint (hl : S l) (hS : ∀ i, S (.int i)) (role : Role) (s : Strictness) :
    (policy.endpoint domain role s (.literal l)).On role S := by
  unfold endpoint
  split
  · exact Endpoint.on_rounded domain hl hS
  · exact ⟨rfl, hl⟩

theorem on_endpoint_ne_null (hl : l ≠ .null) (role : Role) (s : Strictness) :
    (policy.endpoint domain role s (.literal l)).On role (· ≠ .null) := by
  refine on_endpoint (S := (· ≠ .null)) hl ?_ role s
  simp

/-- A coordinate without a place among the integers stays where it is when coordinates are
rounded. -/
theorem endpoint_of_integral?_eq_none {role : Role} {s : Strictness} {c : Coordinate}
    (h : c.integral? role s = none) : policy.endpoint domain role s c = .finite role s c := by
  unfold endpoint
  split
  · exact Endpoint.rounded_of_integral?_eq_none h
  · rfl

theorem endpoint_null (role : Role) (s : Strictness) :
    policy.endpoint domain role s (.literal .null) = .finite role s (.literal .null) :=
  endpoint_of_integral?_eq_none rfl

/-- The interval of a null-safe comparison with null admits no other value. -/
theorem not_admits_point_null (hnull : v ≠ .null) (nullSafe : Bool) :
    ¬ (policy.termInterval domain (.point (.literal .null) nullSafe)).Admits v := by
  intro hadmits
  have hupper : (policy.endpoint domain .upper .closed (.literal .null)).Admits .upper v :=
    hadmits.upper
  rw [endpoint_null] at hupper
  obtain ⟨x, hx, hallows⟩ := Endpoint.admits_finite_iff.mp hupper
  obtain rfl : Ordering.gt = x := Option.some.inj ((Literal.compare?_null_right hnull).symm.trans hx)
  exact hallows rfl

section Reading

variable {predicate : Scalar} {order : Literal → Literal → Option Ordering}
  (hread : Reading policy domain.type predicate v order)

include hread

/-- The interval of a point admits what equals the literal. -/
theorem admits_point_iff (hl : l ≠ .null) (nullSafe : Bool) :
    (policy.termInterval domain (.point (.literal l) nullSafe)).Admits v ↔ order v l = some .eq := by
  constructor
  · intro hadmits
    obtain ⟨x, hx, hlower⟩ := (hread.admits_endpoint_iff hl .lower .closed).mp hadmits.lower
    obtain ⟨y, hy, hupper⟩ := (hread.admits_endpoint_iff hl .upper .closed).mp hadmits.upper
    obtain rfl := Option.some.inj (hx.symm.trans hy)
    cases x with
    | lt => exact absurd rfl hlower
    | eq => exact hx
    | gt => exact absurd rfl hupper
  · intro heq
    exact ⟨(hread.admits_endpoint_iff hl .lower .closed).mpr ⟨.eq, heq, by decide⟩,
      (hread.admits_endpoint_iff hl .upper .closed).mpr ⟨.eq, heq, by decide⟩⟩

/-- The interval of a lower bound admits what its endpoint admits. -/
theorem admits_lower_iff (hl : l ≠ .null) (s : Strictness) :
    (policy.termInterval domain (.lower (.literal l) s)).Admits v ↔
      ∃ x, order v l = some x ∧ s.Allows .lower x := by
  rw [← hread.admits_endpoint_iff hl]
  exact Interval.admits_lower_alone_iff

/-- The interval of an upper bound admits what its endpoint admits. -/
theorem admits_upper_iff (hl : l ≠ .null) (s : Strictness) :
    (policy.termInterval domain (.upper (.literal l) s)).Admits v ↔
      ∃ x, order v l = some x ∧ s.Allows .upper x := by
  rw [← hread.admits_endpoint_iff hl]
  exact Interval.admits_upper_alone_iff

/-- **A term is exact.** A comparison is true of a value other than null just if the term is not the
impossible one and its interval admits the value. -/
theorem trueOf_iff_admits (h : Term.Of op l t) :
    op.TrueOf order v l ↔ t ≠ .contradiction ∧ (policy.termInterval domain t).Admits v := by
  have hv := hread.ne_null
  have htrue : l ≠ .null → (op.TrueOf order v l ↔ ∃ x, order v l = some x ∧ op.Accepts x) := by
    intro hl
    simp [BinaryOperator.TrueOf, hv, hl]
  cases h with
  | never hop => simp [BinaryOperator.TrueOf, hop]
  | same =>
      by_cases hl : l = .null
      · -- Neither side is ever true: the value is not null, and the point is null alone.
        subst hl
        refine iff_of_false ?_ fun h => not_admits_point_null hv true h.2
        simp [BinaryOperator.TrueOf, hv]
      · rw [htrue hl, admits_point_iff hread hl]
        simp [BinaryOperator.Accepts]
  | equal hl =>
      rw [htrue hl, admits_point_iff hread hl]
      simp [BinaryOperator.Accepts]
  | above hl | atLeast hl =>
      rw [htrue hl, admits_lower_iff hread hl]
      simp [BinaryOperator.Accepts, Strictness.Allows, Role.inward, Role.outward]
  | below hl | atMost hl =>
      rw [htrue hl, admits_upper_iff hread hl]
      simp [BinaryOperator.Accepts, Strictness.Allows, Role.inward, Role.outward]

end Reading

end Terms

end RangePolicy

/-! ### The finished range -/

/-- A point is found where both endpoints are closed and at the same place. -/
theorem Interval.of_pointCoordinate? {i : Interval} {c : Coordinate}
    (h : i.pointCoordinate? = some c) :
    ∃ r r' c', i = ⟨.finite r .closed c, .finite r' .closed c'⟩ ∧ c.compare? c' = some .eq := by
  obtain ⟨lower, upper⟩ := i
  unfold pointCoordinate? at h
  split at h
  · next r c₁ r' c' hl hu =>
      simp only at hl hu
      subst hl hu
      split at h
      · next heq =>
          obtain rfl := Option.some.inj h
          obtain ⟨x, hx, hthen⟩ := Option.map_eq_some_iff.mp heq
          refine ⟨r, r', c', rfl, ?_⟩
          rw [hx]
          cases x with
          | eq => rfl
          | lt | gt => exact absurd hthen (by simp [Ordering.then])
      · exact absurd h (by simp)
  · exact absurd h (by simp)

theorem Interval.not_admits_of_exhausted (hv : v.CoherentAt S) {i : Interval} (hi : i.On S)
    (h : i.isEmpty = true ∨ i.lower.compare? i.upper = some .gt) : ¬ i.Admits v := by
  rcases h with hempty | hcrossed
  · exact not_admits_of_isEmpty hi hempty
  · exact not_admits_of_crossed hv hi hcrossed

theorem RangeBuilder.evaluate_empty (b : RangeBuilder) : (b.apply .empty).build.evaluate = ⟨[]⟩ := rfl

/-- A builder is narrowed to nothing, to a point, or to the interval as it is. -/
theorem RangeBuilder.narrowedTo_cases (b : RangeBuilder) (i : Interval) :
    ((i.isEmpty = true ∨ i.lower.compare? i.upper = some .gt) ∧
        b.narrowedTo i = b.apply .empty) ∨
      (∃ c, i.pointCoordinate? = some c ∧ b.narrowedTo i = b.setPoint c) ∨
      (i.pointCoordinate? = none ∧ b.narrowedTo i = { b with interval := i }) := by
  unfold narrowedTo
  split
  · next hcrossed => exact .inl ⟨hcrossed, rfl⟩
  · cases hpoint : i.pointCoordinate? with
    | none => exact .inr (.inr ⟨rfl, rfl⟩)
    | some c => exact .inr (.inl ⟨c, rfl, rfl⟩)

namespace RangePolicy

variable {policy : RangePolicy} {domain : Domain} {terms : List Term}

/-- An endpoint that stands at a coordinate by the policy stays there when it is made closed. -/
theorem endpoint_of_settled {s s' : Strictness} {l : Literal} {r : Role} {c : Coordinate}
    (h : policy.endpoint domain role s (.literal l) = .finite r s' c) (side : Role) :
    policy.endpoint domain side .closed c = .finite side .closed c := by
  unfold endpoint at h ⊢
  split
  · next hrounds =>
      rw [if_pos hrounds] at h
      exact Endpoint.rounded_of_settled h side
  · rfl

/-- Nothing but null is at null when coordinates are rounded. -/
theorem eq_null_of_isNull_endpoint {s : Strictness} {l : Literal}
    (h : (policy.endpoint domain role s (.literal l)).isNull = true) : l = .null := by
  by_contra hl
  have hon : (policy.endpoint domain role s (.literal l)).On role (· ≠ .null) :=
    on_endpoint_ne_null hl role s
  exact Bool.false_ne_true (hon.isNull_eq_false.symm.trans h)

/-- A builder narrowed to an interval matches anything with null just if it did before. -/
theorem semantics_narrowedTo_iff (b : RangeBuilder) (i : Interval) :
    (b.narrowedTo i).semantics = .matchesAnything ↔ b.semantics = .matchesAnything := by
  rcases b.narrowedTo_cases i with ⟨-, heq⟩ | ⟨c, -, heq⟩ | ⟨-, heq⟩
  · rw [heq]
    rfl
  · rw [heq]
    simp only [RangeBuilder.setPoint]
    split
    · next hpoint =>
        rw [Bool.and_eq_true, decide_eq_true_eq] at hpoint
        simp [hpoint.2]
    · rfl
  · rw [heq]

/-- Terms do not contradict each other just if none is impossible, and none rejects null or none
requires it. -/
theorem contradictory_eq_false_iff : contradictory terms = false ↔
    (∀ t ∈ terms, t ≠ .contradiction) ∧
      ((∀ t ∈ terms, t.rejectsNull = false) ∨ ∀ t ∈ terms, t.requiresNull = false) := by
  simp only [contradictory, Bool.or_eq_false_iff, Bool.and_eq_false_iff, List.any_eq_false,
    decide_eq_true_eq, Bool.not_eq_true, ne_eq]

/-- The terms are those of comparisons with literals that satisfy some condition. -/
def TermsOf (P : Literal → Prop) (terms : List Term) : Prop :=
  ∀ t ∈ terms, ∃ op l, Term.Of op l t ∧ P l

/-- The null semantics of the range of several terms. -/
def semanticsOf (policy : RangePolicy) (terms : List Term) : NullSemantics :=
  if terms.any Term.mayMatchNull then .matchesNull else policy.semantics

/-- Without contradiction the range of several terms is what narrowing leaves. -/
theorem constraint?_outcomes {c : RangeConstraint} (h : policy.constraint? domain terms = some c) :
    (contradictory terms = true ∧
        c = ((policy.builderWith domain (policy.semanticsOf terms)).apply .empty).build) ∨
      (contradictory terms = false ∧ ∃ i,
        terms.foldlM (policy.narrow? domain) .unconstrained = some i ∧
          c = ((policy.builderWith domain (policy.semanticsOf terms)).narrowedTo i).build) := by
  unfold constraint? at h
  simp only at h
  split at h
  · next hcontradictory => exact .inl ⟨hcontradictory, (Option.some.inj h).symm⟩
  · next hcontradictory =>
      obtain ⟨i, hi, h⟩ := Option.bind_eq_some_iff.mp h
      exact .inr ⟨Bool.eq_false_iff.mpr hcontradictory, i, hi, (Option.some.inj h).symm⟩

section Constraint

variable {P : Literal → Prop} (hterms : TermsOf P terms)

include hterms

/-- Terms of comparisons with literals leave the null semantics to the policy. -/
theorem builderWith_semanticsOf :
    policy.builderWith domain (policy.semanticsOf terms) = policy.builder domain := by
  have hnone : terms.any Term.mayMatchNull = false := by
    rw [List.any_eq_false]
    intro t ht
    obtain ⟨op, l, hof, -⟩ := hterms t ht
    cases hof <;> simp [Term.mayMatchNull]
  rw [semanticsOf, hnone]
  rfl

/-- Contradictory terms are not all true of a value other than null. -/
theorem not_forall_of_contradictory (hnull : v ≠ .null) (h : contradictory terms = true) :
    ¬ ∀ t ∈ terms, t ≠ .contradiction ∧ (policy.termInterval domain t).Admits v := by
  intro hall
  rw [contradictory, Bool.or_eq_true, Bool.and_eq_true] at h
  rcases h with h | ⟨-, h⟩
  · obtain ⟨t, ht, hcontradiction⟩ := List.any_eq_true.mp h
    exact (hall t ht).1 (of_decide_eq_true hcontradiction)
  · -- The term that requires null is the null-safe one, whose interval is null alone.
    obtain ⟨t, ht, hrequires⟩ := List.any_eq_true.mp h
    obtain ⟨op, l, hof, -⟩ := hterms t ht
    have hl : l = .null := by
      cases hof with
      | same | equal => cases l <;> first | rfl | exact absurd hrequires Bool.false_ne_true
      | _ => exact absurd hrequires Bool.false_ne_true
    subst hl
    cases hof with
    | same => exact not_admits_point_null hnull true (hall _ ht).2
    | never => exact absurd hrequires Bool.false_ne_true
    | equal hl | above hl | atLeast hl | below hl | atMost hl => exact hl rfl

/-- The range of terms of comparisons with literals. -/
theorem constraint?_cases {c : RangeConstraint} (h : policy.constraint? domain terms = some c) :
    (contradictory terms = true ∧ c = ((policy.builder domain).apply .empty).build) ∨
      (contradictory terms = false ∧ ∃ i,
        terms.foldlM (policy.narrow? domain) .unconstrained = some i ∧
          c = ((policy.builder domain).narrowedTo i).build) := by
  rw [← builderWith_semanticsOf hterms]
  exact constraint?_outcomes h

/-- A lower endpoint of the narrowed interval stays where it is when it becomes a point. -/
theorem builder_endpoint_of_point {i : Interval}
    (hfold : terms.foldlM (policy.narrow? domain) .unconstrained = some i) {r : Role}
    {s : Strictness} {c : Coordinate} (hlower : i.lower = .finite r s c) (side : Role) :
    (policy.builder domain).endpoint side .closed c = .finite side .closed c := by
  rcases exists_term_of_endpoint hfold .lower with hfree | ⟨t, ht, heq⟩
  · exact absurd (hlower.symm.trans hfree) (by simp [Endpoint.free])
  · obtain ⟨op, l, hof, -⟩ := hterms t ht
    rcases endpoint_termInterval_cases hof .lower with hfree | ⟨s', hs⟩
    · exact absurd (hlower.symm.trans (heq.symm.trans hfree)) (by simp [Endpoint.free])
    · exact endpoint_of_settled (hs.symm.trans (heq.trans hlower)) side

/-- An endpoint of the narrowed interval is at null only if a term asks for null. -/
theorem mem_of_isNull_endpoint {i : Interval}
    (hfold : terms.foldlM (policy.narrow? domain) .unconstrained = some i) (role : Role)
    (h : (i.endpoint role).isNull = true) : .point (.literal .null) true ∈ terms := by
  have hfree : (Endpoint.free role).isNull ≠ true := by cases role <;> exact Bool.false_ne_true
  rcases exists_term_of_endpoint hfold role with heq | ⟨t, ht, heq⟩
  · exact absurd (heq ▸ h) hfree
  · rw [← heq] at h
    obtain ⟨op, l, hof, -⟩ := hterms t ht
    rcases endpoint_termInterval_cases hof role with heq | ⟨s, hs⟩
    · exact absurd (heq ▸ h) hfree
    · obtain rfl := eq_null_of_isNull_endpoint (hs ▸ h)
      cases hof with
      | same => exact ht
      | never => exact absurd h (by cases role <;> exact Bool.false_ne_true)
      | equal hl | above hl | atLeast hl | below hl | atMost hl => exact absurd rfl hl

variable (hon : ∀ role s l, P l → (policy.endpoint domain role s (.literal l)).On role S)

include hon

theorem on_termInterval_of_mem : ∀ t ∈ terms, (policy.termInterval domain t).On S := by
  intro t ht
  obtain ⟨op, l, hof, hl⟩ := hterms t ht
  exact on_termInterval hof fun role s => hon role s l hl

/-- The range admits what narrowing leaves. -/
theorem admits_narrowedTo_iff {i : Interval}
    (hfold : terms.foldlM (policy.narrow? domain) .unconstrained = some i) (hv : v.CoherentAt S) :
    ((policy.builder domain).narrowedTo i).interval.On S ∧
      (((policy.builder domain).narrowedTo i).interval.Admits v ↔ i.Admits v) := by
  have hi : i.On S := on_narrowed hfold (on_termInterval_of_mem hterms hon)
  rcases (policy.builder domain).narrowedTo_cases i with
    ⟨hcrossed, heq⟩ | ⟨c, hpoint, heq⟩ | ⟨-, heq⟩
  · rw [heq]
    refine ⟨⟨trivial, trivial⟩, iff_of_false ?_ ?_⟩
    · intro h
      exact Endpoint.not_admits_blocked .lower v h.lower
    · exact Interval.not_admits_of_exhausted hv hi hcrossed
  · obtain ⟨r, r', c', rfl, hsame⟩ := Interval.of_pointCoordinate? hpoint
    have hstays := builder_endpoint_of_point hterms hfold rfl
    have hset : ((policy.builder domain).setPoint c).interval
        = ⟨.finite .lower .closed c, .finite .upper .closed c⟩ := by
      rw [RangeBuilder.setPoint, hstays .lower, hstays .upper]
    rw [heq, hset]
    obtain ⟨a, rfl, rfl, ha⟩ := hi.lower.exists_literal
    obtain ⟨a', rfl, rfl, ha'⟩ := hi.upper.exists_literal
    refine ⟨⟨⟨rfl, ha⟩, ⟨rfl, ha⟩⟩, ?_⟩
    rw [Interval.admits_closed_self_iff, Interval.admits_closed_iff hv ha ha' hsame]
  · rw [heq]
    exact ⟨hi, Iff.rfl⟩

/-- Narrowing leaves a null coordinate only if it admits nothing but null. -/
theorem isNull_endpoint_eq_false {i : Interval}
    (hfold : terms.foldlM (policy.narrow? domain) .unconstrained = some i) (hv : v.CoherentAt S)
    (hnull : v ≠ .null) (hadmits : i.Admits v) (role : Role) :
    (i.endpoint role).isNull = false := by
  have hterm := (admits_narrowed_iff hfold hv (on_termInterval_of_mem hterms hon)).mp hadmits
  refine Bool.eq_false_iff.mpr ?_
  intro hisNull
  exact not_admits_point_null hnull true (hterm _ (mem_of_isNull_endpoint hterms hfold role hisNull))

/-- A range that admits a value other than null is not rejected for a null coordinate. -/
theorem not_neverTrue_of_admits {i : Interval}
    (hfold : terms.foldlM (policy.narrow? domain) .unconstrained = some i) (hv : v.CoherentAt S)
    (hnull : v ≠ .null) (hadmits : i.Admits v) :
    ¬ ((policy.builder domain).narrowedTo i).build.NeverTrue := by
  rintro ⟨hsem, hends⟩
  rcases (policy.builder domain).narrowedTo_cases i with
    ⟨-, heq⟩ | ⟨c, hpoint, heq⟩ | ⟨-, heq⟩
  · rw [heq] at hends
    exact Bool.false_ne_true hends
  · -- At null the point would have made null match itself.
    obtain ⟨r, r', c', rfl, -⟩ := Interval.of_pointCoordinate? hpoint
    have hstays := builder_endpoint_of_point hterms hfold rfl
    rw [heq] at hsem hends
    simp only [RangeBuilder.build, RangeBuilder.setPoint, hstays, Endpoint.isNull, Bool.or_self]
      at hsem hends
    rw [hends, Bool.true_and] at hsem
    split at hsem
    · exact absurd hsem (by decide)
    · next hother => exact hother (decide_eq_true hsem)
  · rw [heq] at hends
    have hnone := isNull_endpoint_eq_false hterms hon hfold hv hnull hadmits
    have hlower : i.lower.isNull = false := hnone .lower
    have hupper : i.upper.isNull = false := hnone .upper
    simp only [RangeBuilder.build, hlower, hupper] at hends
    exact Bool.false_ne_true hends

/-- **The range of several terms is exact on values other than null.** Where null matches anything,
it contains at least the values that no term excludes. -/
theorem contains?_constraint_iff {c : RangeConstraint} (hc : policy.constraint? domain terms = some c)
    (hv : v.CoherentAt S) (hnull : v ≠ .null) :
    (policy.semantics ≠ .matchesAnything → (c.evaluate.contains? v = some true ↔
      ∀ t ∈ terms, t ≠ .contradiction ∧ (policy.termInterval domain t).Admits v)) ∧
    (policy.semantics = .matchesAnything →
      (∀ t ∈ terms, t ≠ .contradiction ∧ (policy.termInterval domain t).Admits v) →
        c.evaluate.contains? v = some true) := by
  rcases constraint?_cases hterms hc with ⟨hcontradictory, rfl⟩ | ⟨hconsistent, i, hfold, rfl⟩
  · -- Nothing is contained, and the terms are not all true.
    have hnot : ¬ ∀ t ∈ terms, t ≠ .contradiction ∧ (policy.termInterval domain t).Admits v :=
      not_forall_of_contradictory hterms hnull hcontradictory
    rw [RangeBuilder.evaluate_empty, IntervalUnion.contains?_nil]
    exact ⟨fun _ => iff_of_false (by simp) hnot, fun _ h => absurd h hnot⟩
  · obtain ⟨hion, hiff⟩ := admits_narrowedTo_iff hterms hon hfold hv
    have hadmits : i.Admits v ↔
        ∀ t ∈ terms, t ≠ .contradiction ∧ (policy.termInterval domain t).Admits v := by
      rw [admits_narrowed_iff hfold hv (on_termInterval_of_mem hterms hon)]
      exact forall₂_congr fun t ht =>
        (and_iff_right ((contradictory_eq_false_iff.mp hconsistent).1 t ht)).symm
    have hsem := semantics_narrowedTo_iff (policy.builder domain) i
    rw [← hadmits, ← hiff]
    constructor
    · intro hother
      rw [RangeConstraint.contains?_evaluate_iff hion hv hnull (mt hsem.mp hother)]
      refine and_iff_left_of_imp ?_
      intro h
      exact not_neverTrue_of_admits hterms hon hfold hv hnull (hiff.mp h)
    · intro hany h
      exact RangeConstraint.contains?_evaluate_of_admits hion hv (hsem.mpr hany) h

end Constraint

/-! ### Predicates -/

/-- The range of a predicate is the constraint of its terms. -/
theorem exists_terms?_of_analyze {schema : Schema} {predicate : Scalar} {range : ColumnRange}
    {field : Field} (hrange : policy.analyze schema predicate = .ok (some range))
    (hfield : schema[range.column]? = some field) :
    ∃ terms, predicate.terms? = some (range.column, terms) ∧
      policy.constraint? field.domain terms = some range.constraint := by
  unfold analyze at hrange
  split at hrange
  · exact absurd (Except.ok.inj hrange) (by simp)
  · next column terms hterms =>
      split at hrange
      · exact absurd hrange (by simp)
      · next found hfound =>
          obtain ⟨constraint, hconstraint, rfl⟩ := Option.map_eq_some_iff.mp (Except.ok.inj hrange)
          obtain rfl := Option.some.inj (hfound.symm.trans hfield)
          exact ⟨terms, hterms, hconstraint⟩

/-- Without parameters these terms stand for the conjuncts. -/
theorem exists_terms_of_analyze {schema : Schema} {predicate : Scalar} {range : ColumnRange}
    {field : Field} (hfree : predicate.parameterFree = true)
    (hrange : policy.analyze schema predicate = .ok (some range))
    (hfield : schema[range.column]? = some field) :
    ∃ terms, List.Forall₂ (predicate.TermOf range.column) predicate.conjuncts terms ∧
      policy.constraint? field.domain terms = some range.constraint := by
  obtain ⟨terms, hterms, hconstraint⟩ := exists_terms?_of_analyze hrange hfield
  exact ⟨terms, Scalar.forall₂_of_terms? hfree hterms, hconstraint⟩

/-- Terms that stand for the conjuncts of a predicate are those of comparisons with its literals. -/
theorem termsOf_of_forall₂ {predicate : Scalar} {ordinal : Nat} {conjuncts : List Scalar}
    (h : List.Forall₂ (predicate.TermOf ordinal) conjuncts terms) :
    TermsOf (fun l => l ∈ predicate.literals ∨ l = .null) terms := by
  intro t ht
  obtain ⟨conjunct, -, op, l, -, hof, hl⟩ := exists_of_forall₂ h.flip t ht
  exact ⟨op, l, hof, hl⟩

/-- **The range of a predicate is exact on values other than null.** For a predicate without
parameters, and values and literals that are compared in one of the two ways of `Reading`, a value is
in the evaluation just if every conjunct is true of it; where null matches anything, at least then. -/
theorem analyze_exact {policy : RangePolicy} {schema : Schema} {predicate : Scalar}
    {range : ColumnRange} {field : Field} {v : Literal}
    {order : Literal → Literal → Option Ordering} (hfree : predicate.parameterFree = true)
    (hrange : policy.analyze schema predicate = .ok (some range))
    (hfield : schema[range.column]? = some field)
    (hread : Reading policy field.type predicate v order) :
    (policy.semantics ≠ .matchesAnything →
      (range.constraint.evaluate.contains? v = some true ↔
        ∀ conjunct ∈ predicate.conjuncts, conjunct.TrueOf order range.column v)) ∧
    (policy.semantics = .matchesAnything →
      (∀ conjunct ∈ predicate.conjuncts, conjunct.TrueOf order range.column v) →
        range.constraint.evaluate.contains? v = some true) := by
  obtain ⟨terms, hcorresponds, hconstraint⟩ := exists_terms_of_analyze hfree hrange hfield
  have hread : Reading policy field.domain.type predicate v order := hread
  obtain ⟨S, hv, hon⟩ := hread.exists_coherent
  -- Both sides come down to what the intervals of the terms admit.
  have htrue : (∀ conjunct ∈ predicate.conjuncts, conjunct.TrueOf order range.column v) ↔
      ∀ t ∈ terms, t ≠ .contradiction ∧ (policy.termInterval field.domain t).Admits v := by
    refine forall_mem_iff_of_forall₂ hcorresponds ?_
    intro conjunct t hterm
    obtain ⟨op, l, hcompares, hof, -⟩ := hterm
    rw [hcompares.trueOf_iff (hread.swap v l), trueOf_iff_admits hread hof]
  rw [htrue]
  exact contains?_constraint_iff (termsOf_of_forall₂ hcorresponds) hon hconstraint hv hread.ne_null

end RangePolicy

/-- `a > 1.5 AND 10 >= a`, for a column of small integers. -/
def aboveOneAndAHalf : Scalar :=
  .binary (.binary (.column 0) .gt (.literal (.float ⟨0x3FF8000000000000⟩))) .and
    (.binary (.literal (.int 10)) .gte (.column 0))

/-- The range of `a > 1.5 AND 10 >= a` is `[2, 10]`, and 5 is in it. -/
theorem analyze_exact_aboveOneAndAHalf :
    ∃ range, ({} : RangePolicy).analyze [⟨"a", .int8, true⟩] aboveOneAndAHalf = .ok (some range) ∧
      range.constraint.interval =
        ⟨.finite .lower .closed (.literal (.int 2)), .finite .upper .closed (.literal (.int 10))⟩ ∧
      range.constraint.evaluate.contains? (.int 5) = some true := by
  have hrange : ({} : RangePolicy).analyze [⟨"a", .int8, true⟩] aboveOneAndAHalf = .ok (some ⟨0,
      ⟨⟨.int8, true⟩, .matchesNothing, .finite .lower .closed (.literal (.int 2)),
        .finite .upper .closed (.literal (.int 10))⟩⟩) := by
    decide
  have hread : Reading {} .int8 aboveOneAndAHalf (.int 5) Literal.exactCompare? :=
    .exact rfl rfl (by decide) (by decide)
  have hiff := (RangePolicy.analyze_exact rfl hrange rfl hread).1 (by decide)
  refine ⟨_, hrange, rfl, hiff.mpr ?_⟩
  intro conjunct hmem
  simp only [aboveOneAndAHalf, Scalar.conjuncts, List.cons_append, List.nil_append, List.mem_cons,
    List.not_mem_nil, or_false] at hmem
  rcases hmem with rfl | rfl
  · exact ⟨_, _, rfl, rfl, .inr ⟨by simp, by simp, .gt, by decide, rfl⟩⟩
  · exact ⟨_, _, rfl, rfl, .inr ⟨by simp, by simp, .gt, by decide, by simp [BinaryOperator.Accepts]⟩⟩

end QueryAnalysis
