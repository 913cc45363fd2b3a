import QueryAnalysis.Proofs.Range.Membership

/-!
# What constraints evaluate to

`RangeConstraint.evaluate` is described by what it contains. A value other than null is contained
if the interval admits it, unless three-valued logic meets a null coordinate, and where null matches
anything more values may be contained. Null is contained, over a nullable domain and under
three-valued logic, by unconstrained ranges alone.
-/

namespace QueryAnalysis

variable {S : Literal → Prop} {v : Literal}

/-! ### Unions -/

namespace IntervalUnion

/-- A union contains a value just if one of its intervals surely does. -/
theorem contains?_eq_true_iff {u : IntervalUnion} :
    u.contains? v = some true ↔ ∃ i ∈ u.intervals, i.contains? v = some true := by
  rw [← List.mem_map]
  unfold contains?
  simp only
  split
  · next hmem => exact ⟨fun _ => hmem, fun _ => rfl⟩
  · next hmem =>
      constructor
      · intro h
        split at h <;> exact absurd h (by simp)
      · intro h
        exact absurd h hmem

@[simp] theorem contains?_nil (v : Literal) : (⟨[]⟩ : IntervalUnion).contains? v = some false := rfl

theorem contains?_singleton_iff {i : Interval} :
    (⟨[i]⟩ : IntervalUnion).contains? v = some true ↔ i.contains? v = some true := by
  simp [contains?_eq_true_iff]

end IntervalUnion

/-! ### The evaluation -/

namespace Endpoint

theorem admits_aboveNull (hv : v ≠ .null) : aboveNull.Admits .lower v :=
  admits_finite_iff.mpr ⟨.gt, Literal.compare?_null_right hv, rfl⟩

theorem not_admits_aboveNull : ¬ aboveNull.Admits .lower .null := by
  simp [Admits, admits?, aboveNull, above?, Coordinate.position?, Literal.compare?]

end Endpoint

namespace RangeConstraint

variable {c : RangeConstraint}

/-- Whether three-valued logic meets a null coordinate. -/
def NeverTrue (c : RangeConstraint) : Prop :=
  c.semantics = .matchesNothing ∧ (c.interval.lower.isNull || c.interval.upper.isNull) = true

/-- Coordinates that are out of order belong to endpoints that have crossed. -/
theorem compare?_of_isInverted (hi : c.interval.On S) (h : c.isInverted = true) :
    c.interval.lower.compare? c.interval.upper = some .gt := by
  obtain ⟨domain, semantics, lower, upper⟩ := c
  rcases hi.lower.cases with rfl | rfl | ⟨s, a, rfl, -⟩
  · exact absurd h Bool.false_ne_true
  · exact absurd h Bool.false_ne_true
  rcases hi.upper.cases with rfl | rfl | ⟨s', b, rfl, -⟩
  · exact absurd h Bool.false_ne_true
  · exact absurd h Bool.false_ne_true
  simp only [isInverted, Endpoint.coordinate?] at h
  simp only [Endpoint.compare?]
  split at h
  · next hgt =>
      rw [hgt]
      rfl
  · next heq =>
      rw [heq]
      cases s <;> cases s' <;> first | rfl | exact absurd h Bool.false_ne_true
  · exact absurd h Bool.false_ne_true

/-- The evaluation is empty, or it is the resolved interval. -/
theorem evaluate_cases (c : RangeConstraint) :
    (c.evaluate = ⟨[]⟩ ∧ (c.interval.isEmpty = true ∨ c.NeverTrue ∨ c.isInverted = true)) ∨
      (c.evaluate = ⟨[c.resolved]⟩ ∧ c.interval.isEmpty = false ∧ ¬ c.NeverTrue ∧
        c.isInverted = false) := by
  unfold evaluate
  split
  · next hempty => exact .inl ⟨rfl, .inl hempty⟩
  · next hempty =>
      split
      · next hnever => exact .inl ⟨rfl, .inr (.inl hnever)⟩
      · next hnever =>
          split
          · next hinverted => exact .inl ⟨rfl, .inr (.inr hinverted)⟩
          · next hinverted =>
              exact .inr ⟨rfl, Bool.eq_false_iff.mpr hempty, hnever, Bool.eq_false_iff.mpr hinverted⟩

/-- What the resolved interval of a range that is not empty can be. -/
theorem resolved_cases (hi : c.interval.On S) (hempty : c.interval.isEmpty = false)
    (hnever : ¬ c.NeverTrue) :
    c.resolved = c.interval ∨
      (c.semantics = .matchesNothing ∧ c.interval.lower = Endpoint.free .lower ∧
        c.resolved = ⟨.aboveNull, c.interval.upper⟩) ∨
      (c.semantics = .matchesAnything ∧ c.resolved = .unconstrained) := by
  unfold resolved
  simp only
  split
  · next hsem =>
      split
      · next hreaches =>
          refine .inr (.inl ⟨hsem, ?_, rfl⟩)
          simp only [Bool.and_eq_true] at hreaches
          rcases hi.lower.cases with hfree | hblocked | ⟨s, a, hfinite, -⟩
          · exact hfree
          · exact absurd (hi.isEmpty_iff.mpr (.inl hblocked)) (by simp [hempty])
          · -- A finite lower endpoint that reaches null stands at null.
            have hnull : c.interval.lower.isNull = true := by
              simpa [hfinite, Endpoint.isFinite] using hreaches.2
            exact absurd ⟨hsem, by rw [hnull, Bool.true_or]⟩ hnever
      · exact .inl rfl
  · exact .inl rfl
  · next hsem =>
      split
      · exact .inr (.inr ⟨hsem, rfl⟩)
      · exact .inl rfl

theorem on_resolved (hi : c.interval.On S) (hnull : S .null) : c.resolved.On S := by
  unfold resolved
  simp only
  split
  · split
    · exact ⟨⟨rfl, hnull⟩, hi.upper⟩
    · exact hi
  · exact hi
  · split
    · exact Interval.on_unconstrained
    · exact hi

/-- An evaluation that is not empty contains what the resolved interval admits. -/
theorem contains?_resolved_iff (hi : c.interval.On S) :
    (⟨[c.resolved]⟩ : IntervalUnion).contains? v = some true ↔ c.resolved.Admits v := by
  have hi : c.interval.On fun _ => True := hi.mono fun _ _ => trivial
  rw [IntervalUnion.contains?_singleton_iff, Interval.contains?_eq_true_iff (on_resolved hi trivial)]

/-- An evaluation that is empty for another reason than three-valued logic leaves nothing out. -/
theorem not_admits_of_evaluate_nil (hi : c.interval.On S) (hv : v.CoherentAt S)
    (hreason : c.interval.isEmpty = true ∨ c.NeverTrue ∨ c.isInverted = true)
    (hnever : ¬ c.NeverTrue) : ¬ c.interval.Admits v := by
  rcases hreason with hempty | hnull | hinverted
  · exact Interval.not_admits_of_isEmpty hi hempty
  · exact absurd hnull hnever
  · exact Interval.not_admits_of_crossed hv hi (compare?_of_isInverted hi hinverted)

/-- Where null does not match anything, the evaluation contains what the interval admits, unless
three-valued logic meets a null coordinate. -/
theorem contains?_evaluate_iff (hi : c.interval.On S) (hv : v.CoherentAt S) (hnull : v ≠ .null)
    (hsem : c.semantics ≠ .matchesAnything) :
    c.evaluate.contains? v = some true ↔ c.interval.Admits v ∧ ¬ c.NeverTrue := by
  rcases c.evaluate_cases with ⟨heval, hreason⟩ | ⟨heval, hempty, hnever, -⟩
  · rw [heval, IntervalUnion.contains?_nil]
    refine iff_of_false (by simp) ?_
    rintro ⟨hadmits, hnever⟩
    exact not_admits_of_evaluate_nil hi hv hreason hnever hadmits
  · rw [heval, contains?_resolved_iff hi]
    rcases resolved_cases hi hempty hnever with hres | ⟨-, hfree, hres⟩ | ⟨hany, -⟩
    · rw [hres]
      exact ⟨fun h => ⟨h, hnever⟩, And.left⟩
    · rw [hres]
      refine ⟨fun h => ⟨⟨?_, h.upper⟩, hnever⟩, fun h => ⟨Endpoint.admits_aboveNull hnull, h.1.upper⟩⟩
      rw [hfree]
      exact Endpoint.admits_free .lower v
    · exact absurd hany hsem

/-- Where null is an ordinary value, the evaluation contains what the interval admits. -/
theorem contains?_evaluate_matchesNull_iff (hi : c.interval.On S) (hv : v.CoherentAt S)
    (hsem : c.semantics = .matchesNull) :
    c.evaluate.contains? v = some true ↔ c.interval.Admits v := by
  have hnever : ¬ c.NeverTrue := by
    rintro ⟨hnothing, -⟩
    exact absurd (hnothing.symm.trans hsem) (by decide)
  rcases c.evaluate_cases with ⟨heval, hreason⟩ | ⟨heval, -, -, -⟩
  · rw [heval, IntervalUnion.contains?_nil]
    exact iff_of_false (by simp) (not_admits_of_evaluate_nil hi hv hreason hnever)
  · have hresolved : c.resolved = c.interval := by
      simp only [resolved, hsem]
    rw [heval, contains?_resolved_iff hi, hresolved]

/-- Where null matches anything, the evaluation contains at least what the interval admits. -/
theorem contains?_evaluate_of_admits (hi : c.interval.On S) (hv : v.CoherentAt S)
    (hsem : c.semantics = .matchesAnything) (h : c.interval.Admits v) :
    c.evaluate.contains? v = some true := by
  have hnever : ¬ c.NeverTrue := by
    rintro ⟨hnothing, -⟩
    exact absurd (hnothing.symm.trans hsem) (by decide)
  rcases c.evaluate_cases with ⟨-, hreason⟩ | ⟨heval, hempty, -, -⟩
  · exact absurd h (not_admits_of_evaluate_nil hi hv hreason hnever)
  · rw [heval, contains?_resolved_iff hi]
    rcases resolved_cases hi hempty hnever with hres | ⟨hnothing, -, -⟩ | ⟨-, hres⟩
    · rwa [hres]
    · exact absurd (hnothing.symm.trans hsem) (by decide)
    · rw [hres]
      exact Interval.admits_unconstrained v

/-! ### Null -/

/-- No bound at a literal other than null admits null from below. -/
theorem not_admits_null_of_finite {r : Role} {s : Strictness} {a : Literal} (ha : a ≠ .null) :
    ¬ (Endpoint.finite r s (.literal a)).Admits .lower .null := by
  intro h
  obtain ⟨x, hx, hallows⟩ := Endpoint.admits_finite_iff.mp h
  obtain rfl : Ordering.lt = x := Option.some.inj ((Literal.compare?_null_left ha).symm.trans hx)
  exact hallows.ne_outward rfl

/-- Resolving excludes null from a nullable domain unless nothing is bounded. -/
theorem resolved_admits_null_iff (hi : c.interval.On S) (hsem : c.semantics = .matchesNothing)
    (hnullable : c.domain.nullable = true) (hnever : ¬ c.NeverTrue) :
    c.resolved.Admits .null ↔ c.interval = .unconstrained := by
  have hresolved : c.resolved =
      if ((c.interval.lower.isFinite || c.interval.upper.isFinite)
        && (!c.interval.lower.isFinite || c.interval.lower.isNull)) = true
      then ⟨.aboveNull, c.interval.upper⟩ else c.interval := by
    simp only [resolved, hsem, hnullable, Bool.true_and]
  rw [hresolved]
  constructor
  · intro hadmits
    split at hadmits
    · exact absurd hadmits.lower Endpoint.not_admits_aboveNull
    · next hreaches =>
        -- A lower endpoint that admits null is free, and then so is the upper one.
        have hlower : c.interval.lower = Endpoint.free .lower := by
          rcases hi.lower.cases with hfree | hblocked | ⟨s, a, hfinite, -⟩
          · exact hfree
          · exact absurd (hblocked ▸ hadmits.lower) (Endpoint.not_admits_blocked .lower .null)
          · have ha : a ≠ .null := by
              rintro rfl
              exact hnever ⟨hsem, by rw [hfinite]; rfl⟩
            exact absurd (hfinite ▸ hadmits.lower) (not_admits_null_of_finite ha)
        have hupper : c.interval.upper = Endpoint.free .upper := by
          rcases hi.upper.cases with hfree | hblocked | ⟨s, a, hfinite, -⟩
          · exact hfree
          · exact absurd (hblocked ▸ hadmits.upper) (Endpoint.not_admits_blocked .upper .null)
          · exact absurd (by rw [hlower, hfinite]; rfl) hreaches
        cases hint : c.interval with
        | mk lower upper =>
            rw [hint] at hlower hupper
            exact congrArg₂ Interval.mk hlower hupper
  · intro hfree
    rw [hfree]
    exact Interval.admits_unconstrained .null

/-- Under three-valued logic and over a nullable domain, null is contained only if nothing is
bounded. -/
theorem contains?_evaluate_null_iff (hi : c.interval.On S) (hsem : c.semantics = .matchesNothing)
    (hnullable : c.domain.nullable = true) :
    c.evaluate.contains? .null = some true ↔ c.interval = .unconstrained := by
  rcases c.evaluate_cases with ⟨heval, hreason⟩ | ⟨heval, -, hnever, -⟩
  · rw [heval, IntervalUnion.contains?_nil]
    refine iff_of_false (by simp) ?_
    intro hfree
    -- An unconstrained interval is not empty, nor at null, nor inverted.
    simp [NeverTrue, isInverted, hfree, Interval.unconstrained, Interval.isEmpty, Endpoint.role,
      Endpoint.isNull, Endpoint.coordinate?] at hreason
  · rw [heval, contains?_resolved_iff hi, resolved_admits_null_iff hi hsem hnullable hnever]

/-- The complement of a range that is not empty consists of the parts below and above. -/
theorem complement_of_evaluate_eq {i : Interval} (h : c.evaluate = ⟨[i]⟩) :
    c.complement = ⟨complementBelow i ++ complementAbove i⟩ := by
  simp only [complement, h, List.head?_cons]
  split
  · next hfree =>
      rw [show i = .unconstrained from of_decide_eq_true hfree]
      rfl
  · rfl

/-- The part below an interval that begins at a literal other than null. -/
theorem complementBelow_eq {i : Interval} {r : Role} {t : Strictness} {a : Literal}
    (hlower : i.lower = .finite r t (.literal a)) (ha : a ≠ .null) :
    complementBelow i = [⟨.aboveNull, .finite .upper t.complement (.literal a)⟩] := by
  rw [complementBelow, hlower]
  cases a with
  | null => exact absurd rfl ha
  | _ => rfl

theorem eq_of_mem_complementBelow {i j : Interval} (h : j ∈ complementBelow i) :
    ∃ s a, j = ⟨.aboveNull, .finite .upper s a⟩ := by
  unfold complementBelow at h
  split at h
  · split at h
    · exact absurd h List.not_mem_nil
    · exact ⟨_, _, List.mem_singleton.mp h⟩
  · exact absurd h List.not_mem_nil

theorem eq_of_mem_complementAbove {i j : Interval} (h : j ∈ complementAbove i) :
    ∃ s a, i.upper.coordinate? = some a ∧ j = ⟨.finite .lower s a, .posInfinity⟩ := by
  unfold complementAbove at h
  split at h
  · next a ha => exact ⟨_, a, ha, List.mem_singleton.mp h⟩
  · exact absurd h List.not_mem_nil

/-- The complement contains null only if it contains everything. -/
theorem contains?_complement_null_iff (hi : c.interval.On S) (hsem : c.semantics = .matchesNothing) :
    c.complement.contains? .null = some true ↔ c.evaluate.isEmpty = true := by
  rcases c.evaluate_cases with ⟨heval, -⟩ | ⟨heval, hempty, hnever, -⟩
  · simp only [complement, heval]
    exact ⟨fun _ => rfl, fun _ => rfl⟩
  · have hnonempty : c.evaluate.isEmpty ≠ true := by
      rw [heval]
      exact Bool.false_ne_true
    refine iff_of_false ?_ hnonempty
    intro h
    -- The part below starts above null, and the part above at a coordinate other than null.
    have hupper : c.resolved.upper = c.interval.upper := by
      rcases resolved_cases hi hempty hnever with hres | ⟨-, -, hres⟩ | ⟨hany, -⟩
      · rw [hres]
      · rw [hres]
      · exact absurd (hsem.symm.trans hany) (by decide)
    rw [complement_of_evaluate_eq heval] at h
    obtain ⟨i, hmem, hcontains⟩ := IntervalUnion.contains?_eq_true_iff.mp h
    rcases List.mem_append.mp hmem with hbelow | habove
    · obtain ⟨s, a, rfl⟩ := eq_of_mem_complementBelow hbelow
      exact Endpoint.not_admits_aboveNull (Interval.admits_lower_of_contains? hcontains)
    · obtain ⟨s, a, hcoord, rfl⟩ := eq_of_mem_complementAbove habove
      rcases hi.upper.cases with hfree | hblocked | ⟨s', b, hfinite, -⟩
      · exact absurd hcoord (by simp [hupper, hfree, Endpoint.free, Endpoint.coordinate?])
      · exact absurd hcoord (by
          simp [hupper, hblocked, Endpoint.blocked, Endpoint.free, Role.opposite,
            Endpoint.coordinate?])
      · obtain rfl : Coordinate.literal b = a := by
          simpa [hupper, hfinite, Endpoint.coordinate?] using hcoord
        have hb : b ≠ .null := by
          rintro rfl
          exact hnever ⟨hsem, by rw [hfinite, Bool.or_comm]; rfl⟩
        exact not_admits_null_of_finite hb (Interval.admits_lower_of_contains? hcontains)

end RangeConstraint

end QueryAnalysis
