import QueryAnalysis.Proofs.Range.Analysis

/-!
# Null in the range of a predicate

Under three-valued logic no comparison is true of null, so that the range of a predicate should
contain null only if every conjunct is a null test (`Scalar.TestsNull`). `RangePolicy.analyze_null`
says when it does. There is one more case: a comparison with a number beyond the integers of the
column, on the side that it leaves open, is given up when its endpoint is rounded
(`Scalar.GivenUp`). If that happens to all conjuncts then the range is unconstrained, and an
unconstrained range contains null.
-/

namespace QueryAnalysis

variable {policy : RangePolicy} {domain : Domain} {terms : List Term} {op : BinaryOperator}
  {l : Literal} {t : Term}

/-! ### Conjuncts that null can pass -/

/-- The conjunct is a null test of the column. -/
inductive Scalar.TestsNull (ordinal : Nat) : Scalar → Prop
  | isNull : TestsNull ordinal (isNull (column ordinal))
  | left : TestsNull ordinal (binary (column ordinal) .isNotDistinctFrom (literal .null))
  | right : TestsNull ordinal (binary (literal .null) .isNotDistinctFrom (column ordinal))

/-- The side on which a comparison bounds its left operand, if it bounds it on one side alone. -/
def BinaryOperator.side? : BinaryOperator → Option Role
  | gt | gte => some .lower
  | lt | lte => some .upper
  | _ => none

/-- The least integer that is not below a finite number. -/
def Literal.ceil? : Literal → Option Int
  | int i => some i.toInt
  | float d => if d.isFinite then some d.ceil else none
  | _ => none

/-- The literal is a number beyond the integers of the type, where a bound on a side lets all of them
through. -/
def DataType.Exceeded (type : DataType) (role : Role) (l : Literal) : Prop :=
  ∃ least greatest value, type.integralRange? = some (least, greatest) ∧ l.ceil? = some value ∧
    Endpoint.Exceeds least greatest role value

/-- The comparison bounds on one side, by a number that the type exceeds there. -/
def DataType.GivesUp (type : DataType) (op : BinaryOperator) (l : Literal) : Prop :=
  ∃ role, op.side? = some role ∧ type.Exceeded role l

/-- The conjunct bounds the column in a way that is given up when endpoints are rounded. -/
def Scalar.GivenUp (type : DataType) (ordinal : Nat) (conjunct : Scalar) : Prop :=
  ∃ op l, Compares ordinal op l conjunct ∧ type.GivesUp op l

/-- Coordinates are rounded, and all conjuncts of the predicate are given up. -/
def RangePolicy.GivesUp (policy : RangePolicy) (type : DataType) (ordinal : Nat) (predicate : Scalar) :
    Prop :=
  policy.roundsIntegral = true ∧ ∀ conjunct ∈ predicate.conjuncts, conjunct.GivenUp type ordinal

namespace Scalar

variable {ordinal : Nat} {conjunct : Scalar}

/-- A conjunct is one comparison at most. -/
theorem Compares.unique {op' : BinaryOperator} {l' : Literal} (h : Compares ordinal op l conjunct)
    (h' : Compares ordinal op' l' conjunct) : op = op' ∧ l = l' := by
  cases h <;> cases h' <;> exact ⟨rfl, rfl⟩

theorem testsNull_iff (h : Compares ordinal op l conjunct) :
    TestsNull ordinal conjunct ↔ op = .isNotDistinctFrom ∧ l = .null := by
  constructor
  · intro htests
    have hnull : Compares ordinal .isNotDistinctFrom .null conjunct := by
      cases htests with
      | isNull => exact .isNull
      | left => exact .left
      | right => exact @Compares.right _ .isNotDistinctFrom _
    exact h.unique hnull
  · rintro ⟨hop, rfl⟩
    cases h with
    | isNull => exact .isNull
    | left =>
        subst hop
        exact .left
    | @right op =>
        obtain rfl : op = .isNotDistinctFrom := by cases op <;> simp_all [BinaryOperator.reverse]
        exact .right

theorem givenUp_iff {type : DataType} (h : Compares ordinal op l conjunct) :
    GivenUp type ordinal conjunct ↔ type.GivesUp op l := by
  constructor
  · rintro ⟨op', l', h', hgives⟩
    obtain ⟨rfl, rfl⟩ := h.unique h'
    exact hgives
  · exact fun hgives => ⟨op, l, h, hgives⟩

end Scalar

/-! ### Endpoints that are given up -/

/-- A literal has a place among the integers just if it is a finite number, and it is the same place
on either side. -/
theorem Literal.ceil?_eq (l : Literal) (role : Role) (s : Strictness) :
    l.ceil? = ((Coordinate.literal l).integral? role s).map Prod.fst := by
  cases l with
  | float d =>
      simp only [ceil?, Coordinate.integral?]
      split
      · split
        · rfl
        · cases role <;> rfl
      · rfl
  | _ => rfl

namespace Endpoint

variable {least greatest value : Int} {role : Role} {s : Strictness}

/-- The endpoint at an integer bounds nothing just if the integer is beyond the domain. -/
theorem ofIntegral_eq_free_iff (hbounds : least < greatest) :
    ofIntegral least greatest role s value = free role ↔ Exceeds least greatest role value := by
  rcases ofIntegral_cases least greatest role s value with
    ⟨hmiss, h⟩ | ⟨hexceeds, -, h⟩ | ⟨-, hinside, h⟩
  · rw [h]
    refine iff_of_false (by cases role <;> simp [blocked, free, Role.opposite]) ?_
    intro hexceeds
    cases role <;> simp only [Misses, Exceeds] at hmiss hexceeds <;> omega
  · exact iff_of_true h hexceeds
  · rw [h]
    exact iff_of_false (by cases role <;> simp [free]) hinside

theorem rounded_eq_free_iff {domain : Domain} {l : Literal} :
    rounded domain role s (.literal l) = free role ↔ domain.type.Exceeded role l := by
  have hfinite : finite role s (.literal l) ≠ free role := by cases role <;> simp [free]
  cases hrange : domain.type.integralRange? with
  | none =>
      rw [rounded_of_integralRange?_eq_none hrange]
      simp [hfinite, DataType.Exceeded, hrange]
  | some range =>
      obtain ⟨least, greatest⟩ := range
      have hbounds := (domain.type.integralRange?_bounds hrange).2.1
      have hceil := l.ceil?_eq role s
      cases hplace : Coordinate.integral? role s (.literal l) with
      | none =>
          rw [hplace] at hceil
          rw [rounded_of_integral?_eq_none hplace]
          simp [hfinite, DataType.Exceeded, hceil]
      | some place =>
          obtain ⟨value, s'⟩ := place
          rw [hplace] at hceil
          rw [rounded_of_integral? hrange hplace, ofIntegral_eq_free_iff hbounds]
          simp [DataType.Exceeded, hrange, hceil]

end Endpoint

namespace RangePolicy

/-- An endpoint bounds nothing just if it is rounded and the type exceeds its literal. -/
theorem endpoint_eq_free_iff {role : Role} {s : Strictness} :
    policy.endpoint domain role s (.literal l) = Endpoint.free role ↔
      policy.roundsIntegral = true ∧ domain.type.Exceeded role l := by
  unfold endpoint
  split
  · next hrounds => simp [hrounds, Endpoint.rounded_eq_free_iff]
  · next hrounds => cases role <;> simp [hrounds, Endpoint.free]

/-- No literal is beyond the integers of a type on both sides. -/
theorem not_exceeded_both {type : DataType} (hlower : type.Exceeded .lower l) :
    ¬ type.Exceeded .upper l := by
  rintro ⟨least, greatest, value, hrange, hceil, hexceeds⟩
  obtain ⟨_, _, _, hrange', hceil', hexceeds'⟩ := hlower
  obtain ⟨rfl, rfl⟩ := Prod.mk.inj (Option.some.inj (hrange.symm.trans hrange'))
  obtain rfl := Option.some.inj (hceil.symm.trans hceil')
  have hbounds := (type.integralRange?_bounds hrange).2.1
  simp only [Endpoint.Exceeds] at hexceeds hexceeds'
  omega

/-- A term asks for nothing just if its comparison is given up, the impossible term apart. -/
theorem termInterval_eq_unconstrained_iff (h : Term.Of op l t) (ht : t ≠ .contradiction) :
    policy.termInterval domain t = .unconstrained ↔
      policy.roundsIntegral = true ∧ domain.type.GivesUp op l := by
  have hpoint : ∀ nullSafe, policy.termInterval domain (.point (.literal l) nullSafe)
      ≠ .unconstrained := by
    intro nullSafe heq
    obtain ⟨hlower, hupper⟩ := Interval.mk.inj heq
    exact not_exceeded_both (endpoint_eq_free_iff.mp hlower).2 (endpoint_eq_free_iff.mp hupper).2
  have hlower : ∀ s, policy.termInterval domain (.lower (.literal l) s) = .unconstrained ↔
      policy.roundsIntegral = true ∧ domain.type.Exceeded .lower l := by
    intro s
    rw [← endpoint_eq_free_iff (s := s)]
    exact ⟨fun heq => (Interval.mk.inj heq).1, fun heq => congrArg (Interval.mk · .posInfinity) heq⟩
  have hupper : ∀ s, policy.termInterval domain (.upper (.literal l) s) = .unconstrained ↔
      policy.roundsIntegral = true ∧ domain.type.Exceeded .upper l := by
    intro s
    rw [← endpoint_eq_free_iff (s := s)]
    exact ⟨fun heq => (Interval.mk.inj heq).2, fun heq => congrArg (Interval.mk .negInfinity) heq⟩
  cases h with
  | never => exact absurd rfl ht
  | same | equal => simp [hpoint, DataType.GivesUp, BinaryOperator.side?]
  | above | atLeast =>
      rw [hlower]
      simp [DataType.GivesUp, BinaryOperator.side?]
  | below | atMost =>
      rw [hupper]
      simp [DataType.GivesUp, BinaryOperator.side?]

/-- Where a type exceeds a literal from below, nothing lies below the literal. -/
theorem endpoint_upper_of_exceeded (hrounds : policy.roundsIntegral = true)
    (h : domain.type.Exceeded .lower l) (s : Strictness) :
    policy.endpoint domain .upper s (.literal l) = Endpoint.blocked .upper := by
  obtain ⟨least, greatest, value, hrange, hceil, hexceeds⟩ := h
  rw [l.ceil?_eq .upper s] at hceil
  obtain ⟨⟨_, s'⟩, hplace, rfl⟩ := Option.map_eq_some_iff.mp hceil
  rw [endpoint, if_pos hrounds, Endpoint.rounded_of_integral? hrange hplace]
  exact if_pos (.inl hexceeds)

end RangePolicy

/-! ### The point null -/

/-- The interval of null alone. -/
def Interval.nullPoint : Interval :=
  ⟨.finite .lower .closed (.literal .null), .finite .upper .closed (.literal .null)⟩

/-- An interval that is the point null admits null. -/
theorem Interval.admits_null_of_point {i : Interval}
    (h : i.pointCoordinate? = some (.literal .null)) : i.Admits .null := by
  obtain ⟨r, r', c', rfl, hsame⟩ := Interval.of_pointCoordinate? h
  refine ⟨Endpoint.admits_finite_iff.mpr ⟨.eq, rfl, by decide⟩, ?_⟩
  cases c' with
  | literal a => exact Endpoint.admits_finite_iff.mpr ⟨.eq, hsame, by decide⟩
  | parameter index => exact absurd hsame (by simp [Coordinate.compare?])

/-- A builder that is set to a point matches null just if the point is null: there, null is made to
match itself. -/
theorem RangeBuilder.contains?_setPoint_null_iff {b : RangeBuilder} {c : Coordinate}
    (hsem : b.semantics = .matchesNothing) (hnullable : b.domain.nullable = true)
    (hliteral : ∃ a, c = .literal a)
    (hstays : ∀ side, b.endpoint side .closed c = .finite side .closed c) :
    (b.setPoint c).build.evaluate.contains? .null = some true ↔ c = .literal .null := by
  have hset : (b.setPoint c).interval = ⟨.finite .lower .closed c, .finite .upper .closed c⟩ := by
    rw [setPoint, hstays .lower, hstays .upper]
  by_cases hc : c = .literal .null
  · subst hc
    have hmatches : (b.setPoint (.literal .null)).semantics = .matchesNull := by
      rw [setPoint, hsem]
      rfl
    have hbuild : (b.setPoint (.literal .null)).build = ⟨b.domain, .matchesNull, .nullPoint⟩ := by
      rw [build, hset, hmatches]
      rfl
    rw [hbuild]
    exact iff_of_true rfl rfl
  · have hother : c.isNull = false := Bool.eq_false_iff.mpr (mt Coordinate.eq_null_of_isNull hc)
    have hsame : (b.setPoint c).semantics = .matchesNothing := by
      rw [setPoint, hother]
      exact hsem
    have hon : (b.setPoint c).interval.On fun _ => True := by
      obtain ⟨a, rfl⟩ := hliteral
      rw [hset]
      exact ⟨⟨rfl, trivial⟩, ⟨rfl, trivial⟩⟩
    rw [RangeConstraint.contains?_evaluate_null_iff hon hsame hnullable]
    refine iff_of_false ?_ hc
    rw [build, hset]
    simp [Interval.unconstrained]

namespace RangePolicy

theorem termInterval_null (nullSafe : Bool) :
    policy.termInterval domain (.point (.literal .null) nullSafe) = .nullPoint := by
  rw [termInterval, endpoint_null, endpoint_null, Interval.nullPoint]

/-- The interval of a point other than null does not admit null. -/
theorem eq_null_of_admits_point {nullSafe : Bool}
    (h : (policy.termInterval domain (.point (.literal l) nullSafe)).Admits .null) : l = .null := by
  by_contra hl
  have hlower : (policy.endpoint domain .lower .closed (.literal l)).Admits .lower .null := h.lower
  have hupper : (policy.endpoint domain .upper .closed (.literal l)).Admits .upper .null := h.upper
  rcases (on_endpoint_ne_null hl .lower .closed).cases with hfree | hblocked | ⟨s, a, hfinite, ha⟩
  · -- A point below all integers of the type has nothing below it.
    obtain ⟨hrounds, hexceeded⟩ := endpoint_eq_free_iff.mp hfree
    rw [endpoint_upper_of_exceeded hrounds hexceeded] at hupper
    exact Endpoint.not_admits_blocked .upper .null hupper
  · exact Endpoint.not_admits_blocked .lower .null (hblocked ▸ hlower)
  · exact RangeConstraint.not_admits_null_of_finite ha (hfinite ▸ hlower)

/-! ### Terms that do not contradict each other -/

/-- A term that requires null asks for something. -/
theorem requiresNull_eq_false (h : policy.termInterval domain t = .unconstrained) :
    t.requiresNull = false := by
  cases t with
  | point c nullSafe =>
      refine Bool.eq_false_iff.mpr ?_
      intro hnull
      obtain rfl := Coordinate.eq_null_of_isNull hnull
      rw [termInterval_null] at h
      exact absurd h (by simp [Interval.nullPoint, Interval.unconstrained])
  | _ => rfl

/-- Terms that are not contradictory are all null-safe if one of them requires null. -/
theorem eq_point_of_requiresNull {P : Literal → Prop} (hterms : TermsOf P terms)
    (hconsistent : contradictory terms = false) (ht : t ∈ terms) (hrequires : t.requiresNull = true) :
    ∀ t' ∈ terms, ∃ l, t' = .point (.literal l) true := by
  have haccepts := (contradictory_eq_false_iff.mp hconsistent).2.resolve_right fun h =>
    Bool.false_ne_true ((h t ht).symm.trans hrequires)
  intro t' ht'
  obtain ⟨op, l, hof, -⟩ := hterms t' ht'
  have hsafe := haccepts t' ht'
  cases hof with
  | same => exact ⟨_, rfl⟩
  | _ => exact absurd hsafe.symm Bool.false_ne_true

/-- Terms are narrowed to null just if all of them are null tests. -/
theorem pointCoordinate?_eq_null_iff {P : Literal → Prop} {i : Interval} (hterms : TermsOf P terms)
    (hne : terms ≠ []) (hconsistent : contradictory terms = false)
    (hfold : terms.foldlM (policy.narrow? domain) .unconstrained = some i) :
    i.pointCoordinate? = some (.literal .null) ↔ ∀ t ∈ terms, t = .point (.literal .null) true := by
  constructor
  · intro hpoint
    have hon : ∀ t ∈ terms, (policy.termInterval domain t).On fun _ => True :=
      on_termInterval_of_mem hterms fun role s l _ => on_endpoint trivial (fun _ => trivial) role s
    have hadmits := (admits_narrowed_iff hfold (Literal.coherentAt_null _) hon).mp
      (Interval.admits_null_of_point hpoint)
    -- One term requires null, so that all are null-safe points, and all of them admit null.
    obtain ⟨r, r', c', rfl, -⟩ := Interval.of_pointCoordinate? hpoint
    have hmem : .point (.literal .null) true ∈ terms :=
      mem_of_isNull_endpoint hterms hfold .lower rfl
    intro t ht
    obtain ⟨l, rfl⟩ := eq_point_of_requiresNull hterms hconsistent hmem rfl t ht
    rw [eq_null_of_admits_point (hadmits _ ht)]
  · intro hall
    have hpoint : i = .nullPoint := by
      refine narrowed_eq_of_forall hfold hne ?_
      intro t ht
      rw [hall t ht, termInterval_null]
    rw [hpoint]
    rfl

/-! ### Null in the range -/

/-- Under three-valued logic and over a nullable domain, a builder that is narrowed to an interval
matches null just if that is the point null or is unconstrained. -/
theorem contains?_narrowedTo_null_iff {i : Interval} (hon : i.On fun _ => True)
    (hsem : policy.semantics = .matchesNothing) (hnullable : domain.nullable = true)
    (hstays : ∀ c, i.pointCoordinate? = some c → ∀ side,
      (policy.builder domain).endpoint side .closed c = .finite side .closed c) :
    ((policy.builder domain).narrowedTo i).build.evaluate.contains? .null = some true ↔
      i.pointCoordinate? = some (.literal .null) ∨ i = .unconstrained := by
  rcases (policy.builder domain).narrowedTo_cases i with
    ⟨hcrossed, heq⟩ | ⟨c, hpoint, heq⟩ | ⟨hpoint, heq⟩
  · rw [heq, RangeBuilder.evaluate_empty, IntervalUnion.contains?_nil]
    refine iff_of_false (by simp) ?_
    rintro (hpoint | rfl)
    · exact Interval.not_admits_of_exhausted (Literal.coherentAt_null _) hon hcrossed
        (Interval.admits_null_of_point hpoint)
    · exact absurd hcrossed (by decide)
  · have hset : ((policy.builder domain).setPoint c).build.evaluate.contains? .null = some true ↔
        c = .literal .null := by
      refine RangeBuilder.contains?_setPoint_null_iff hsem hnullable ?_ (hstays c hpoint)
      obtain ⟨r, r', c', rfl, -⟩ := Interval.of_pointCoordinate? hpoint
      obtain ⟨a, ha, -, -⟩ := hon.lower.exists_literal
      exact ⟨a, ha⟩
    have hfinite : i ≠ .unconstrained := by
      obtain ⟨r, r', c', rfl, -⟩ := Interval.of_pointCoordinate? hpoint
      simp [Interval.unconstrained]
    rw [heq, hset, hpoint]
    simp [hfinite]
  · rw [heq, RangeConstraint.contains?_evaluate_null_iff hon hsem hnullable]
    simp [hpoint, RangeBuilder.build]

/-- The range of several terms contains null just if all of them are null tests, or if none of them
asks for anything. -/
theorem contains?_constraint_null_iff {P : Literal → Prop} (hterms : TermsOf P terms)
    (hne : terms ≠ []) {c : RangeConstraint} (hc : policy.constraint? domain terms = some c)
    (hsem : policy.semantics = .matchesNothing) (hnullable : domain.nullable = true) :
    c.evaluate.contains? .null = some true ↔
      (∀ t ∈ terms, t = .point (.literal .null) true) ∨
        ∀ t ∈ terms, t ≠ .contradiction ∧ policy.termInterval domain t = .unconstrained := by
  rcases constraint?_cases hterms hc with ⟨hcontradictory, rfl⟩ | ⟨hconsistent, i, hfold, rfl⟩
  · rw [RangeBuilder.evaluate_empty, IntervalUnion.contains?_nil]
    refine iff_of_false (by simp) ?_
    have hnot : contradictory terms ≠ false := by simp [hcontradictory]
    rintro (hall | hall)
    · refine hnot (contradictory_eq_false_iff.mpr ⟨?_, .inl ?_⟩)
      · intro t ht
        simp [hall t ht]
      · intro t ht
        simp [hall t ht, Term.rejectsNull]
    · refine hnot (contradictory_eq_false_iff.mpr ⟨?_, .inr ?_⟩)
      · exact fun t ht => (hall t ht).1
      · exact fun t ht => requiresNull_eq_false (hall t ht).2
  · have hpossible := (contradictory_eq_false_iff.mp hconsistent).1
    have hon : i.On fun _ => True := on_narrowed hfold (on_termInterval_of_mem hterms
      fun role s l _ => on_endpoint trivial (fun _ => trivial) role s)
    have hstays : ∀ c, i.pointCoordinate? = some c → ∀ side,
        (policy.builder domain).endpoint side .closed c = .finite side .closed c := by
      intro c hpoint
      obtain ⟨r, r', c', rfl, -⟩ := Interval.of_pointCoordinate? hpoint
      exact builder_endpoint_of_point hterms hfold rfl
    rw [contains?_narrowedTo_null_iff hon hsem hnullable hstays,
      pointCoordinate?_eq_null_iff hterms hne hconsistent hfold, narrowed_eq_unconstrained_iff hfold]
    exact or_congr Iff.rfl (forall₂_congr fun t ht => (and_iff_right (hpossible t ht)).symm)

end RangePolicy

/-! ### Terms of conjuncts that null can pass -/

namespace Scalar.TermOf

variable {predicate conjunct : Scalar} {ordinal : Nat}

theorem testsNull_iff (h : predicate.TermOf ordinal conjunct t) :
    conjunct.TestsNull ordinal ↔ t = .point (.literal .null) true := by
  obtain ⟨op, l, hcompares, hof, -⟩ := h
  rw [Scalar.testsNull_iff hcompares]
  cases hof with
  | never hop => simp [hop]
  | _ => simp

/-- A term asks for nothing, without being impossible, just if its conjunct is given up. -/
theorem asksNothing_iff (h : predicate.TermOf ordinal conjunct t) :
    t ≠ .contradiction ∧ policy.termInterval domain t = .unconstrained ↔
      policy.roundsIntegral = true ∧ conjunct.GivenUp domain.type ordinal := by
  obtain ⟨op, l, hcompares, hof, -⟩ := h
  rw [givenUp_iff hcompares]
  constructor
  · rintro ⟨ht, hfree⟩
    exact (RangePolicy.termInterval_eq_unconstrained_iff hof ht).mp hfree
  · intro hgives
    have ht : t ≠ .contradiction := by
      obtain ⟨-, role, -, _, _, _, -, hceil, -⟩ := hgives
      cases hof with
      | never => exact absurd hceil (by simp [Literal.ceil?])
      | _ => simp
    exact ⟨ht, (RangePolicy.termInterval_eq_unconstrained_iff hof ht).mpr hgives⟩

/-- A null test is not given up. -/
theorem not_givenUp_of_testsNull {type : DataType} (h : predicate.TermOf ordinal conjunct t)
    (htests : conjunct.TestsNull ordinal) : ¬ conjunct.GivenUp type ordinal := by
  obtain ⟨op, l, hcompares, -, -⟩ := h
  obtain ⟨rfl, rfl⟩ := (Scalar.testsNull_iff hcompares).mp htests
  rw [givenUp_iff hcompares]
  rintro ⟨role, hside, -⟩
  exact absurd hside (by simp [BinaryOperator.side?])

end Scalar.TermOf

/-- **When the range of a predicate contains null.** Under three-valued logic and over a nullable
column it does if all conjuncts are null tests, and also if coordinates are rounded and all conjuncts
are given up. So null is matched by the null tests alone, just if not all conjuncts are given up. -/
theorem RangePolicy.analyze_null {policy : RangePolicy} {schema : Schema} {predicate : Scalar}
    {range : ColumnRange} {field : Field} (hfree : predicate.parameterFree = true)
    (hrange : policy.analyze schema predicate = .ok (some range))
    (hfield : schema[range.column]? = some field) (hsem : policy.semantics = .matchesNothing)
    (hnullable : field.nullable = true) :
    (range.constraint.evaluate.contains? .null = some true ↔
      (∀ conjunct ∈ predicate.conjuncts, conjunct.TestsNull range.column) ∨
        policy.GivesUp field.type range.column predicate) ∧
    ((range.constraint.evaluate.contains? .null = some true ↔
        ∀ conjunct ∈ predicate.conjuncts, conjunct.TestsNull range.column) ↔
      ¬ policy.GivesUp field.type range.column predicate) := by
  obtain ⟨terms, hcorresponds, hconstraint⟩ := exists_terms_of_analyze hfree hrange hfield
  obtain ⟨first, hfirst⟩ := List.exists_mem_of_ne_nil _ predicate.conjuncts_ne_nil
  obtain ⟨term, hterm, hfirstTerm⟩ := exists_of_forall₂ hcorresponds first hfirst
  have htests : (∀ conjunct ∈ predicate.conjuncts, conjunct.TestsNull range.column) ↔
      ∀ t ∈ terms, t = .point (.literal .null) true :=
    forall_mem_iff_of_forall₂ hcorresponds fun conjunct t h => h.testsNull_iff
  have hgiven : policy.GivesUp field.type range.column predicate ↔
      ∀ t ∈ terms, t ≠ .contradiction ∧ policy.termInterval field.domain t = .unconstrained := by
    rw [← forall_mem_iff_of_forall₂ hcorresponds fun conjunct t h => h.asksNothing_iff.symm]
    constructor
    · rintro ⟨hrounds, hall⟩ conjunct hmem
      exact ⟨hrounds, hall conjunct hmem⟩
    · intro hall
      exact ⟨(hall first hfirst).1, fun conjunct hmem => (hall conjunct hmem).2⟩
  have hiff := contains?_constraint_null_iff (termsOf_of_forall₂ hcorresponds)
    (List.ne_nil_of_mem hterm) hconstraint hsem hnullable
  rw [← htests, ← hgiven] at hiff
  refine ⟨hiff, ?_⟩
  rw [hiff]
  constructor
  · -- The first conjunct would be a null test and be given up.
    intro hexact hgives
    have hnull := hexact.mp (.inr hgives)
    exact hfirstTerm.not_givenUp_of_testsNull (hnull first hfirst) (hgives.2 first hfirst)
  · intro hkeeps
    exact or_iff_left hkeeps

/-- `a < 127.5 AND 1000 >= a`, which all small integers satisfy. -/
def belowHalfOverGreatest : Scalar :=
  .binary (.binary (.column 0) .lt (.literal (.float ⟨0x405FE00000000000⟩))) .and
    (.binary (.literal (.int 1000)) .gte (.column 0))

/-- Both conjuncts of `a < 127.5 AND 1000 >= a` are given up, so that null is matched. -/
theorem analyze_null_belowHalfOverGreatest :
    ∃ range, ({} : RangePolicy).analyze [⟨"a", .int8, true⟩] belowHalfOverGreatest
        = .ok (some range) ∧ range.constraint.evaluate.contains? .null = some true := by
  have hrange : ({} : RangePolicy).analyze [⟨"a", .int8, true⟩] belowHalfOverGreatest
      = .ok (some ⟨0, ⟨⟨.int8, true⟩, .matchesNothing, .unconstrained⟩⟩) := by
    decide
  refine ⟨_, hrange, (RangePolicy.analyze_null rfl hrange rfl rfl rfl).1.mpr (.inr ⟨rfl, ?_⟩)⟩
  intro conjunct hmem
  simp only [belowHalfOverGreatest, Scalar.conjuncts, List.cons_append, List.nil_append,
    List.mem_cons, List.not_mem_nil, or_false] at hmem
  rcases hmem with rfl | rfl
  · exact ⟨_, _, .left, .upper, rfl, -128, 127, 128, rfl, by decide, show (127 : Int) < 128 by decide⟩
  · exact ⟨_, _, .right, .upper, rfl, -128, 127, 1000, rfl, by decide,
      show (127 : Int) < 1000 by decide⟩

/-- `a > -200`, which all small integers satisfy. -/
def aboveMinusTwoHundred : Scalar :=
  .binary (.column 0) .gt (.literal (.int (-200)))

/-- The range of `a > -200` contains null, although `a > -200` is no null test. -/
theorem null_matched_aboveMinusTwoHundred :
    ∃ range, ({} : RangePolicy).analyze [⟨"a", .int8, true⟩] aboveMinusTwoHundred
        = .ok (some range) ∧ range.constraint.evaluate.contains? .null = some true ∧
      ¬ ∀ conjunct ∈ aboveMinusTwoHundred.conjuncts, conjunct.TestsNull range.column := by
  have hrange : ({} : RangePolicy).analyze [⟨"a", .int8, true⟩] aboveMinusTwoHundred
      = .ok (some ⟨0, ⟨⟨.int8, true⟩, .matchesNothing, .unconstrained⟩⟩) := by
    decide
  refine ⟨_, hrange, by decide, ?_⟩
  intro hall
  nomatch hall aboveMinusTwoHundred List.mem_cons_self

end QueryAnalysis
