import QueryAnalysis.Proofs.Range.ParameterTerms

/-!
# Ranges over parameters

The range of a predicate that compares a column with parameters is found before the parameters are
known. `RangePolicy.analyze_bind` says what it contains once they are bound, under three-valued logic
and over a nullable domain: the values of which all conjuncts are true, and in one case null.

One null semantics is chosen for the whole range. A null-safe conjunct makes null an ordinary value
(`RangePolicy.semanticsOf`), for the other conjuncts too. All of them are then on the parameter of the
null-safe one, because endpoints at different parameters cannot be compared. If that parameter is bound
to null then `a = ?0` lets null through, although it is not true (`Scalar.MixesNull`).
-/

namespace QueryAnalysis

variable {policy : RangePolicy} {domain : Domain} {terms : List Term} {op : BinaryOperator}
  {p : Nat} {t : Term} {s : Nat → Literal} {v w : Literal}

/-! ### Conjuncts that compare a column with a parameter -/

namespace Scalar

/-- The conjunct says that a column stands in a relation to a parameter. -/
inductive ComparesParameter (ordinal : Nat) : BinaryOperator → Nat → Scalar → Prop
  | left {op : BinaryOperator} {p : Nat} :
      ComparesParameter ordinal op p (binary (column ordinal) op (parameter p))
  | right {op : BinaryOperator} {p : Nat} :
      ComparesParameter ordinal op.reverse p (binary (parameter p) op (column ordinal))

/-- Some conjuncts are null-safe and some are not, all parameters are bound to null, and no conjunct
excludes the value of its parameter. -/
structure MixesNull (ordinal : Nat) (s : Nat → Literal) (predicate : Scalar) : Prop where
  nullSafe : ∃ conjunct ∈ predicate.conjuncts, ∃ op p,
    ComparesParameter ordinal op p conjunct ∧ op = .isNotDistinctFrom
  ordinary : ∃ conjunct ∈ predicate.conjuncts, ∃ op p,
    ComparesParameter ordinal op p conjunct ∧ op ≠ .isNotDistinctFrom
  atNull : ∀ conjunct ∈ predicate.conjuncts, ∃ op p,
    ComparesParameter ordinal op p conjunct ∧ op.Accepts .eq ∧ s p = .null

variable {ordinal : Nat} {predicate conjunct : Scalar}

theorem ComparesParameter.unique {op' : BinaryOperator} {p' : Nat}
    (h : ComparesParameter ordinal op p conjunct) (h' : ComparesParameter ordinal op' p' conjunct) :
    op = op' ∧ p = p' := by
  cases h <;> cases h' <;> exact ⟨rfl, rfl⟩

/-- Bound, the conjunct compares the column with a literal. -/
theorem ComparesParameter.bind (h : ComparesParameter ordinal op p conjunct) :
    Compares ordinal op (s p) (conjunct.bind s) := by
  cases h with
  | left => exact .left
  | right => exact .right

theorem ComparesParameter.term? (h : ComparesParameter ordinal op p conjunct) :
    conjunct.term? = (Term.ofComparison? op (.parameter p)).map fun term => (ordinal, term) := by
  cases h with
  | left =>
      simp only [Scalar.term?, coordinate?, Option.bind_eq_bind, Option.bind_some]
      cases Term.ofComparison? op (.parameter p) <;> rfl
  | @right op =>
      simp only [Scalar.term?, coordinate?, Option.bind_eq_bind, Option.bind_some]
      cases Term.ofComparison? op.reverse (.parameter p) <;> rfl

end Scalar

/-! ### The bound range -/

namespace RangePolicy

section Bound

variable (hterms : ∀ t ∈ terms, ∃ op p, Term.OfParameter op p t) {c : RangeConstraint}
  (hc : policy.constraint? domain terms = some c) (hs : ∀ i, w.PeerOf (s i)) (hv : w.PeerOf v)

include hterms hc

/-- The range of several terms is what narrowing leaves, or empty where endpoints have crossed. -/
theorem exists_narrowed : ∃ j, terms.foldlM (policy.narrow? domain) .unconstrained = some j ∧
    c.domain = domain ∧ c.semantics = policy.semanticsOf terms ∧
      (c.interval = j ∨ (j.lower.compare? j.upper = some .gt ∧ c.interval = .empty)) := by
  rcases constraint?_outcomes hc with ⟨hcontradictory, -⟩ | ⟨-, j, hfold, rfl⟩
  · exact absurd hcontradictory (by simp [contradictory_eq_false hterms])
  · refine ⟨j, hfold, ?_⟩
    rcases narrowedTo_eq policy domain (policy.semanticsOf terms) (atParameter_narrowed hterms hfold)
      with heq | ⟨hcrossed, heq⟩
    · rw [heq]
      exact ⟨rfl, rfl, .inl rfl⟩
    · rw [heq]
      exact ⟨rfl, rfl, .inr ⟨hcrossed, rfl⟩⟩

include hs hv

/-- Bound, the range admits what the bound intervals of all terms admit. -/
theorem admits_bind_constraint_iff : (c.bind s).interval.On w.PeerOf ∧
    ((c.bind s).interval.Admits v ↔
      ∀ t ∈ terms, ((policy.termInterval domain t).bind s).Admits v) := by
  have hself : ∀ i, (s i).compare? (s i) = some .eq := fun i => (hs i).compare?_self
  have hcoherent : v.CoherentAt w.PeerOf := (Literal.uniform_peerOf w).coherentAt hv
  have hon : ∀ t ∈ terms, ((policy.termInterval domain t).bind s).On w.PeerOf := by
    intro t ht
    obtain ⟨op, p, hof⟩ := hterms t ht
    exact Interval.on_bind (hof.atParameter policy domain) hs
  obtain ⟨j, hfold, -, -, hinterval⟩ := exists_narrowed hterms hc
  have hjon : (j.bind s).On w.PeerOf := Interval.on_bind (atParameter_narrowed hterms hfold) hs
  rw [← admits_bind_narrowed_iff hself hfold hcoherent hon]
  rcases hinterval with rfl | ⟨hcrossed, hempty⟩
  · exact ⟨hjon, Iff.rfl⟩
  · have hempty : (c.bind s).interval = .empty := congrArg (Interval.bind s) hempty
    rw [hempty]
    refine ⟨⟨trivial, trivial⟩, iff_of_false ?_ ?_⟩
    · intro h
      exact Endpoint.not_admits_blocked .lower v h.lower
    · exact Interval.not_admits_of_crossed hcoherent hjon (Endpoint.compare?_bind hself hcrossed)

/-- Without a null-safe term the range contains the values of which all terms are true, and null is
not among them. -/
theorem contains?_bind_iff_of_ordinary (hne : terms ≠ []) (hsem : policy.semantics = .matchesNothing)
    (hnullable : domain.nullable = true) (hnone : terms.any Term.mayMatchNull = false) :
    (c.bind s).evaluate.contains? v = some true ↔ ∀ t ∈ terms, t.TrueOf s v := by
  obtain ⟨hon, hadmits⟩ := admits_bind_constraint_iff hterms hc hs hv
  obtain ⟨j, hfold, rfl, hsemantics, hinterval⟩ := exists_narrowed hterms hc
  have hnothing : (c.bind s).semantics = .matchesNothing := by
    refine hsemantics.trans ?_
    rw [semanticsOf, hnone, if_neg Bool.false_ne_true, hsem]
  have hop : ∀ t ∈ terms, ∀ {op p}, Term.OfParameter op p t → op ≠ .isNotDistinctFrom := by
    intro t ht op p hof hsafe
    exact List.any_eq_false.mp hnone t ht (hof.mayMatchNull_iff.mpr hsafe)
  by_cases hnull : v = .null
  · subst hnull
    rw [RangeConstraint.contains?_evaluate_null_iff hon hnothing hnullable]
    refine iff_of_false ?_ ?_
    · intro hfree
      rcases hinterval with rfl | ⟨-, hempty⟩
      · exact bind_narrowed_ne_unconstrained hterms hfold hne hfree
      · have hempty : Interval.empty = .unconstrained :=
          (congrArg (Interval.bind s) hempty).symm.trans hfree
        exact absurd hempty (by decide)
    · intro hall
      obtain ⟨t, ht⟩ := List.exists_mem_of_ne_nil terms hne
      obtain ⟨op, p, hof⟩ := hterms t ht
      exact (((hof.trueOf_iff policy c.domain).mp (hall t ht)).2.resolve_left (hop t ht hof)).1 rfl
  · rw [RangeConstraint.contains?_evaluate_iff hon ((Literal.uniform_peerOf w).coherentAt hv) hnull
      (by simp [hnothing])]
    have hkept : (c.bind s).interval.Admits v → (c.bind s).interval = j.bind s := by
      intro hinside
      rcases hinterval with rfl | ⟨-, hempty⟩
      · rfl
      · have hempty : (c.bind s).interval = .empty := congrArg (Interval.bind s) hempty
        exact absurd (hempty ▸ hinside).lower (Endpoint.not_admits_blocked .lower v)
    constructor
    · rintro ⟨hinside, hnever⟩ t ht
      obtain ⟨op, p, hof⟩ := hterms t ht
      refine (hof.trueOf_iff policy c.domain).mpr ⟨hadmits.mp hinside t ht, .inr ⟨hnull, ?_⟩⟩
      -- A parameter that is bound to null would make the range empty.
      intro hp
      refine hnever ⟨hnothing, ?_⟩
      rw [← Interval.exists_isNull_iff, hkept hinside]
      exact (exists_isNull_bind_iff hterms hfold).mpr ⟨t, ht, op, p, hof, hp⟩
    · intro hall
      have hinside := hadmits.mpr fun t ht => by
        obtain ⟨op, p, hof⟩ := hterms t ht
        exact ((hof.trueOf_iff policy c.domain).mp (hall t ht)).1
      refine ⟨hinside, ?_⟩
      rintro ⟨-, hends⟩
      rw [← Interval.exists_isNull_iff, hkept hinside] at hends
      obtain ⟨t, ht, op, p, hof, hp⟩ := (exists_isNull_bind_iff hterms hfold).mp hends
      exact (((hof.trueOf_iff policy c.domain).mp (hall t ht)).2.resolve_left (hop t ht hof)).2 hp

/-- With a null-safe term, null is an ordinary value for all of them. The range contains it, too, if
it equals their parameter and is excluded by none of them. -/
theorem contains?_bind_iff_of_nullSafe {t₀ : Term} {q : Nat} (ht₀ : t₀ ∈ terms)
    (hof₀ : Term.OfParameter .isNotDistinctFrom q t₀) :
    (c.bind s).evaluate.contains? v = some true ↔
      (∀ t ∈ terms, t.TrueOf s v) ∨
        (v = .null ∧ (∃ t ∈ terms, ∃ op p, Term.OfParameter op p t ∧ op ≠ .isNotDistinctFrom) ∧
          ∀ t ∈ terms, ∃ op p, Term.OfParameter op p t ∧ op.Accepts .eq ∧ s p = .null) := by
  obtain ⟨hon, hadmits⟩ := admits_bind_constraint_iff hterms hc hs hv
  obtain ⟨j, hfold, -, hsemantics, -⟩ := exists_narrowed hterms hc
  have hany : terms.any Term.mayMatchNull = true :=
    List.any_eq_true.mpr ⟨t₀, ht₀, hof₀.mayMatchNull_iff.mpr rfl⟩
  have hordinary : (c.bind s).semantics = .matchesNull := by
    refine hsemantics.trans ?_
    rw [semanticsOf, if_pos hany]
  rw [RangeConstraint.contains?_evaluate_matchesNull_iff hon
    ((Literal.uniform_peerOf w).coherentAt hv) hordinary, hadmits]
  constructor
  · intro hall
    -- The null-safe term pins the value down to that of its parameter, which all terms share.
    have hequal : v.compare? (s q) = some .eq := by
      obtain ⟨x, hx, rfl⟩ := hof₀.admits_bind_iff.mp (hall t₀ ht₀)
      exact hx
    have hnull := Literal.eq_null_iff_of_compare?_eq hequal
    by_cases hother : v = .null ∧
        ∃ t ∈ terms, ∃ op p, Term.OfParameter op p t ∧ op ≠ .isNotDistinctFrom
    · refine .inr ⟨hother.1, hother.2, fun t ht => ?_⟩
      obtain ⟨op, p, hof⟩ := hterms t ht
      obtain rfl := eq_of_nullSafe hterms hfold ht₀ hof₀ ht hof
      obtain ⟨x, hx, haccepts⟩ := hof.admits_bind_iff.mp (hall t ht)
      obtain rfl := Option.some.inj (hx.symm.trans hequal)
      exact ⟨op, p, hof, haccepts, hnull.mp hother.1⟩
    · refine .inl fun t ht => ?_
      obtain ⟨op, p, hof⟩ := hterms t ht
      obtain rfl := eq_of_nullSafe hterms hfold ht₀ hof₀ ht hof
      refine (hof.trueOf_iff policy domain).mpr ⟨hall t ht, ?_⟩
      by_cases hop : op = .isNotDistinctFrom
      · exact .inl hop
      · have hv : v ≠ .null := fun hv => hother ⟨hv, t, ht, op, p, hof, hop⟩
        exact .inr ⟨hv, mt hnull.mpr hv⟩
  · rintro (hall | ⟨rfl, -, hall⟩) t ht
    · obtain ⟨op, p, hof⟩ := hterms t ht
      exact ((hof.trueOf_iff policy domain).mp (hall t ht)).1
    · obtain ⟨op, p, hof, haccepts, hp⟩ := hall t ht
      exact hof.admits_bind_iff.mpr ⟨.eq, by rw [hp]; rfl, haccepts⟩

/-- **The range of several terms at parameters.** Bound, it contains the values of which all terms are
true; and it contains null where null-safe terms stand beside others, the parameters are bound to
null, and none of the terms excludes what equals its parameter. -/
theorem contains?_bind_iff (hne : terms ≠ []) (hsem : policy.semantics = .matchesNothing)
    (hnullable : domain.nullable = true) :
    (c.bind s).evaluate.contains? v = some true ↔
      (∀ t ∈ terms, t.TrueOf s v) ∨
        (v = .null ∧
          (∃ t ∈ terms, ∃ op p, Term.OfParameter op p t ∧ op = .isNotDistinctFrom) ∧
          (∃ t ∈ terms, ∃ op p, Term.OfParameter op p t ∧ op ≠ .isNotDistinctFrom) ∧
          ∀ t ∈ terms, ∃ op p, Term.OfParameter op p t ∧ op.Accepts .eq ∧ s p = .null) := by
  by_cases hsafe : ∃ t ∈ terms, ∃ op p, Term.OfParameter op p t ∧ op = .isNotDistinctFrom
  · rw [and_iff_right hsafe]
    obtain ⟨t₀, ht₀, op, q, hof₀, rfl⟩ := hsafe
    exact contains?_bind_iff_of_nullSafe hterms hc hs hv ht₀ hof₀
  · have hnone : terms.any Term.mayMatchNull = false := by
      refine List.any_eq_false.mpr fun t ht hmay => hsafe ?_
      obtain ⟨op, p, hof⟩ := hterms t ht
      exact ⟨t, ht, op, p, hof, hof.mayMatchNull_iff.mp hmay⟩
    rw [contains?_bind_iff_of_ordinary hterms hc hs hv hne hsem hnullable hnone]
    exact (or_iff_left fun h => hsafe h.2.1).symm

end Bound

end RangePolicy

/-! ### Predicates -/

namespace Scalar

variable {ordinal : Nat} {predicate conjunct : Scalar}

theorem mixesNull_iff : predicate.MixesNull ordinal s ↔
    (∃ conjunct ∈ predicate.conjuncts, ∃ op p,
        ComparesParameter ordinal op p conjunct ∧ op = .isNotDistinctFrom) ∧
      (∃ conjunct ∈ predicate.conjuncts, ∃ op p,
        ComparesParameter ordinal op p conjunct ∧ op ≠ .isNotDistinctFrom) ∧
      ∀ conjunct ∈ predicate.conjuncts, ∃ op p,
        ComparesParameter ordinal op p conjunct ∧ op.Accepts .eq ∧ s p = .null :=
  ⟨fun h => ⟨h.nullSafe, h.ordinary, h.atNull⟩, fun ⟨hsafe, hother, hnull⟩ => ⟨hsafe, hother, hnull⟩⟩

/-- The conjuncts that are not null-safe are not true of null. -/
theorem MixesNull.not_trueOf_null (h : predicate.MixesNull ordinal s) :
    ¬ ∀ conjunct ∈ predicate.conjuncts,
      (conjunct.bind s).TrueOf Literal.compare? ordinal .null := by
  intro hall
  obtain ⟨conjunct, hmem, op, p, hcompares, hop⟩ := h.ordinary
  have htrue := (hcompares.bind.trueOf_iff (Literal.compare?_swap _ _)).mp (hall conjunct hmem)
  exact ((BinaryOperator.trueOf_compare?_iff.mp htrue).2.resolve_left hop).1 rfl

/-- The conjunct and the term are the same comparison with a parameter. -/
def ParameterTerm (ordinal : Nat) (conjunct : Scalar) (t : Term) : Prop :=
  ∃ op p, ComparesParameter ordinal op p conjunct ∧ Term.OfParameter op p t

/-- What is said of the comparison is said of the conjunct and of the term alike. -/
theorem ParameterTerm.exists_iff (h : ParameterTerm ordinal conjunct t)
    (F : BinaryOperator → Nat → Prop) :
    (∃ op p, ComparesParameter ordinal op p conjunct ∧ F op p) ↔
      ∃ op p, Term.OfParameter op p t ∧ F op p := by
  obtain ⟨op, p, hcompares, hof⟩ := h
  constructor
  · rintro ⟨op', p', hcompares', hF⟩
    obtain ⟨rfl, rfl⟩ := hcompares.unique hcompares'
    exact ⟨op, p, hof, hF⟩
  · rintro ⟨op', p', hof', hF⟩
    obtain ⟨rfl, rfl⟩ := hof.unique hof'
    exact ⟨op, p, hcompares, hF⟩

/-- Bound, the conjunct is true if its comparison is. -/
theorem ParameterTerm.trueOf_bind_iff (h : ParameterTerm ordinal conjunct t) :
    (conjunct.bind s).TrueOf Literal.compare? ordinal v ↔ t.TrueOf s v := by
  rw [Term.TrueOf, ← h.exists_iff]
  obtain ⟨op, p, hcompares, -⟩ := h
  rw [hcompares.bind.trueOf_iff (Literal.compare?_swap v (s p))]
  constructor
  · exact fun htrue => ⟨op, p, hcompares, htrue⟩
  · rintro ⟨op', p', hcompares', htrue⟩
    obtain ⟨rfl, rfl⟩ := hcompares.unique hcompares'
    exact htrue

/-- The terms of a predicate over parameters are those of its conjuncts. -/
theorem forall₂_parameterTerm_of_terms? {terms : List Term}
    (hcompares : ∀ conjunct ∈ predicate.conjuncts, ∃ op p, ComparesParameter ordinal op p conjunct)
    (h : predicate.terms? = some (ordinal, terms)) :
    List.Forall₂ (ParameterTerm ordinal) predicate.conjuncts terms := by
  refine ((List.forall₂_and_left _ _).mpr ⟨hcompares, forall₂_term?_of_terms? h⟩).imp ?_
  rintro conjunct t ⟨⟨op, p, hcompares⟩, hterm⟩
  rw [hcompares.term?] at hterm
  obtain ⟨term, hfound, heq⟩ := Option.map_eq_some_iff.mp hterm
  obtain ⟨-, rfl⟩ := Prod.mk.inj heq
  exact ⟨op, p, hcompares, .of_ofComparison? hfound⟩

end Scalar

/-- **The range of a predicate over parameters.** Take three-valued logic, a nullable column, and a
value and literals for the parameters that are null or of one variant. Once it is bound the range
contains the value if every conjunct is true of it, the parameters being bound there too. Apart from
that it contains null in the case of `Scalar.MixesNull`, and only then does it differ from the bound
predicate. -/
theorem RangePolicy.analyze_bind {schema : Schema} {predicate : Scalar} {range : ColumnRange}
    {field : Field} (hcompares : ∀ conjunct ∈ predicate.conjuncts,
      ∃ op p, Scalar.ComparesParameter range.column op p conjunct)
    (hrange : policy.analyze schema predicate = .ok (some range))
    (hfield : schema[range.column]? = some field) (hnullable : field.nullable = true)
    (hsem : policy.semantics = .matchesNothing) (hs : ∀ i, w.PeerOf (s i)) (hv : w.PeerOf v) :
    ((range.constraint.bind s).evaluate.contains? v = some true ↔
      (∀ conjunct ∈ predicate.conjuncts,
        (conjunct.bind s).TrueOf Literal.compare? range.column v) ∨
      (v = .null ∧ predicate.MixesNull range.column s)) ∧
    (((range.constraint.bind s).evaluate.contains? v = some true ↔
      ∀ conjunct ∈ predicate.conjuncts,
        (conjunct.bind s).TrueOf Literal.compare? range.column v) ↔
      ¬ (v = .null ∧ predicate.MixesNull range.column s)) := by
  obtain ⟨terms, hterms?, hconstraint⟩ := exists_terms?_of_analyze hrange hfield
  have hpairs := Scalar.forall₂_parameterTerm_of_terms? hcompares hterms?
  have hterms : ∀ t ∈ terms, ∃ op p, Term.OfParameter op p t := by
    intro t ht
    obtain ⟨conjunct, -, op, p, -, hof⟩ := exists_of_forall₂ hpairs.flip t ht
    exact ⟨op, p, hof⟩
  have hne : terms ≠ [] := by
    rintro rfl
    exact predicate.conjuncts_ne_nil (List.forall₂_nil_right_iff.mp hpairs)
  have hcontains : (range.constraint.bind s).evaluate.contains? v = some true ↔
      (∀ conjunct ∈ predicate.conjuncts,
        (conjunct.bind s).TrueOf Literal.compare? range.column v) ∨
      (v = .null ∧ predicate.MixesNull range.column s) := by
    rw [contains?_bind_iff hterms hconstraint hs hv hne hsem hnullable, Scalar.mixesNull_iff,
      forall_mem_iff_of_forall₂ hpairs fun _ _ hpair => hpair.trueOf_bind_iff,
      exists_mem_iff_of_forall₂ hpairs fun _ _ hpair => hpair.exists_iff fun op _ =>
        op = .isNotDistinctFrom,
      exists_mem_iff_of_forall₂ hpairs fun _ _ hpair => hpair.exists_iff fun op _ =>
        op ≠ .isNotDistinctFrom,
      forall_mem_iff_of_forall₂ hpairs fun _ _ hpair => hpair.exists_iff fun op p =>
        op.Accepts .eq ∧ s p = .null]
  refine ⟨hcontains, ?_⟩
  rw [hcontains]
  constructor
  · rintro hsame ⟨rfl, hmixes⟩
    exact hmixes.not_trueOf_null (hsame.mp (.inr ⟨rfl, hmixes⟩))
  · exact fun hmixes => or_iff_left hmixes

/-- `?0 < a AND a <= ?1`. -/
def aboveFirstUpToSecond : Scalar :=
  .binary (.binary (.parameter 0) .lt (.column 0)) .and
    (.binary (.column 0) .lte (.parameter 1))

/-- The first parameter stands for 3 and all others for 7. -/
def threeThenSeven : Nat → Literal
  | 0 => .int 3
  | _ => .int 7

/-- The range of `?0 < a AND a <= ?1` is `(?0, ?1]`, and 5 is in it once that is `(3, 7]`. -/
theorem analyze_bind_aboveFirstUpToSecond :
    ∃ range, ({} : RangePolicy).analyze [⟨"a", .int32, true⟩] aboveFirstUpToSecond
        = .ok (some range) ∧
      range.constraint.interval =
        ⟨.finite .lower .opened (.parameter 0), .finite .upper .closed (.parameter 1)⟩ ∧
      (range.constraint.bind threeThenSeven).evaluate.contains? (.int 5) = some true := by
  have hrange : ({} : RangePolicy).analyze [⟨"a", .int32, true⟩] aboveFirstUpToSecond
      = .ok (some ⟨0, ⟨⟨.int32, true⟩, .matchesNothing, .finite .lower .opened (.parameter 0),
        .finite .upper .closed (.parameter 1)⟩⟩) := by
    decide
  have hpeers : ∀ i, (Literal.int 5).PeerOf (threeThenSeven i) := by
    intro i
    cases i <;> exact .inr .int
  have hconjuncts : ∀ conjunct ∈ aboveFirstUpToSecond.conjuncts,
      conjunct = .binary (.parameter 0) .lt (.column 0) ∨
        conjunct = .binary (.column 0) .lte (.parameter 1) := by
    intro conjunct hmem
    simpa [aboveFirstUpToSecond, Scalar.conjuncts] using hmem
  refine ⟨_, hrange, rfl,
    (RangePolicy.analyze_bind ?_ hrange rfl rfl rfl hpeers (.inr .int)).1.mpr (.inl ?_)⟩
  · intro conjunct hmem
    rcases hconjuncts conjunct hmem with rfl | rfl
    · exact ⟨_, _, .right⟩
    · exact ⟨_, _, .left⟩
  · intro conjunct hmem
    rcases hconjuncts conjunct hmem with rfl | rfl
    · exact ⟨_, _, rfl, rfl, .inr ⟨by simp [threeThenSeven], by simp, .lt, by decide, rfl⟩⟩
    · exact ⟨_, _, rfl, rfl, .inr ⟨by simp, by simp [threeThenSeven], .lt, by decide,
        by simp [BinaryOperator.Accepts]⟩⟩

/-- `a = ?0 AND a IS NOT DISTINCT FROM ?0`. -/
def equalAndNotDistinct : Scalar :=
  .binary (.binary (.column 0) .eq (.parameter 0)) .and
    (.binary (.column 0) .isNotDistinctFrom (.parameter 0))

/-- With null for its parameter the range of `a = ?0 AND a IS NOT DISTINCT FROM ?0` contains null,
although `a = null` is not true of it. -/
theorem null_contained_equalAndNotDistinct :
    ∃ range, ({} : RangePolicy).analyze [⟨"a", .int32, true⟩] equalAndNotDistinct
        = .ok (some range) ∧
      (∀ conjunct ∈ equalAndNotDistinct.conjuncts,
        ∃ op p, Scalar.ComparesParameter range.column op p conjunct) ∧
      (range.constraint.bind fun _ => .null).evaluate.contains? .null = some true ∧
      ¬ ∀ conjunct ∈ equalAndNotDistinct.conjuncts,
        (conjunct.bind fun _ => .null).TrueOf Literal.compare? range.column .null := by
  have hrange : ({} : RangePolicy).analyze [⟨"a", .int32, true⟩] equalAndNotDistinct
      = .ok (some ⟨0, ⟨⟨.int32, true⟩, .matchesNull, .finite .lower .closed (.parameter 0),
        .finite .upper .closed (.parameter 0)⟩⟩) := by
    decide
  refine ⟨_, hrange, ?_, by decide, ?_⟩
  · intro conjunct hmem
    simp only [equalAndNotDistinct, Scalar.conjuncts, List.cons_append, List.nil_append,
      List.mem_cons, List.not_mem_nil, or_false] at hmem
    rcases hmem with rfl | rfl
    · exact ⟨_, _, .left⟩
    · exact ⟨_, _, .left⟩
  · intro hall
    obtain ⟨a, b, ha, -, htrue⟩ := hall (.binary (.column 0) .eq (.parameter 0)) List.mem_cons_self
    obtain rfl : Literal.null = a := Option.some.inj ha
    rcases htrue with ⟨hop, -⟩ | ⟨hnull, -⟩
    · exact absurd hop (by decide)
    · exact hnull rfl

end QueryAnalysis
