import QueryAnalysis.Proofs.Range.Partition

/-!
# What a range denotes

`RangeConstraint.evaluate` leaves early for flipped, null and inverted endpoints, and then moves the
lower endpoint above null or widens the interval to everything. `RangeConstraint.Denotes` says in
terms of the interval itself which values satisfy the constraint under its null semantics.

The two agree for every range that literal coordinates lead to (`RangeBuilder.evaluate_denotes`). The
proof has one equivalence for each null semantics. That an inverted interval is left out loses no
value, as crossed endpoints admit none (`Interval.not_admits_of_crossed`); where null matches
anything it is what keeps such an interval from being widened.
-/

namespace QueryAnalysis

variable {S : Literal → Prop} {v : Literal}

/-! ### Endpoints in disorder -/

namespace Interval

/-- An endpoint stands on the side that it does not bound. -/
def Flipped (i : Interval) : Prop :=
  i.lower.role ≠ .lower ∨ i.upper.role ≠ .upper

/-- The lower coordinate is above the upper one, or they are equal and one end is open. -/
def OutOfOrder (i : Interval) : Prop :=
  ∃ low high, i.lower.coordinate? = some low ∧ i.upper.coordinate? = some high ∧
    (low.compare? high = some .gt ∨
      (low.compare? high = some .eq ∧
        (i.lower.strictness = .opened ∨ i.upper.strictness = .opened)))

theorem isEmpty_iff_flipped {i : Interval} : i.isEmpty = true ↔ i.Flipped := by
  simp [isEmpty, Flipped]

end Interval

theorem Endpoint.isClosed_eq_false_iff {e : Endpoint} : e.isClosed = false ↔ e.strictness = .opened := by
  unfold isClosed
  cases e.strictness <;> simp

namespace RangeConstraint

variable {c : RangeConstraint}

theorem isInverted_iff_outOfOrder : c.isInverted = true ↔ c.interval.OutOfOrder := by
  unfold isInverted Interval.OutOfOrder
  cases c.interval.lower.coordinate? with
  | none => simp
  | some low =>
      cases c.interval.upper.coordinate? with
      | none => simp
      | some high =>
          simp only [Option.some.injEq, exists_and_left, exists_eq_left']
          cases low.compare? high with
          | none => simp
          | some order => cases order <;> simp [Endpoint.isClosed_eq_false_iff]

/-! ### The denotation -/

/-- The values that satisfy a constraint.

* Where null matches nothing they lie in the interval, which has no end at null; and null itself
  satisfies only what does not bound a nullable column.
* Where null is an ordinary value they are those of the interval.
* Where null matches anything an interval in order that reaches null, or that has an end at null,
  stands for all values. -/
def Denotes (c : RangeConstraint) (v : Literal) : Prop :=
  match c.semantics with
  | .matchesNothing =>
    (c.interval.lower.isNull = false ∧ c.interval.upper.isNull = false) ∧
      c.interval.contains? v = some true ∧
      (v ≠ .null ∨ c.domain.nullable = false ∨ c.interval.isUnconstrained = true)
  | .matchesNull => c.interval.contains? v = some true
  | .matchesAnything =>
    ¬ c.interval.Flipped ∧ ¬ c.interval.OutOfOrder ∧
      (c.interval.contains? v = some true ∨ c.interval.lower.isFinite = false ∨
        c.interval.lower.isNull = true ∨ c.interval.upper.isNull = true)

theorem not_neverTrue_iff (hsem : c.semantics = .matchesNothing) :
    ¬ c.NeverTrue ↔ c.interval.lower.isNull = false ∧ c.interval.upper.isNull = false := by
  simp [NeverTrue, hsem]

/-- Three-valued logic takes null out of a bounded interval over a nullable domain, and nothing
else. -/
theorem contains?_evaluate_matchesNothing_iff (hi : c.interval.On S) (hv : v.CoherentAt S)
    (hsem : c.semantics = .matchesNothing) :
    c.evaluate.contains? v = some true ↔
      ¬ c.NeverTrue ∧ c.interval.Admits v ∧
        (v ≠ .null ∨ c.domain.nullable = false ∨ c.interval = .unconstrained) := by
  by_cases hnull : v = .null
  · subst hnull
    cases hnullable : c.domain.nullable with
    | true =>
        rw [contains?_evaluate_null_iff hi hsem hnullable]
        constructor
        · intro hfree
          refine ⟨?_, hfree ▸ Interval.admits_unconstrained .null, .inr (.inr hfree)⟩
          rw [not_neverTrue_iff hsem, hfree]
          exact ⟨rfl, rfl⟩
        · intro h
          simpa using h.2.2
    | false =>
        -- The domain has no null to exclude, so the interval stays as it is.
        have hresolved : c.resolved = c.interval := by
          simp [resolved, hsem, hnullable]
        rcases c.evaluate_cases with ⟨heval, hreason⟩ | ⟨heval, -, hnever, -⟩
        · rw [heval, IntervalUnion.contains?_nil]
          refine iff_of_false (by simp) fun h => ?_
          exact not_admits_of_evaluate_nil hi hv hreason h.1 h.2.1
        · rw [heval, contains?_resolved_iff hi, hresolved]
          exact ⟨fun hadmits => ⟨hnever, hadmits, .inr (.inl rfl)⟩, fun h => h.2.1⟩
  · rw [contains?_evaluate_iff hi hv hnull (by simp [hsem])]
    exact ⟨fun h => ⟨h.2, h.1, .inl hnull⟩, fun h => ⟨h.2.1, h.1⟩⟩

/-- Where null matches anything, an interval in order is widened if it reaches null or has an end
there. -/
theorem contains?_evaluate_matchesAnything_iff (hi : c.interval.On S)
    (hsem : c.semantics = .matchesAnything) :
    c.evaluate.contains? v = some true ↔
      ¬ c.interval.Flipped ∧ ¬ c.interval.OutOfOrder ∧
        (c.interval.Admits v ∨ c.interval.lower.isFinite = false ∨
          c.interval.lower.isNull = true ∨ c.interval.upper.isNull = true) := by
  have hnever : ¬ c.NeverTrue := by
    intro h
    exact absurd (h.1.symm.trans hsem) (by decide)
  rcases c.evaluate_cases with ⟨heval, hreason⟩ | ⟨heval, hempty, -, hinverted⟩
  · rw [heval, IntervalUnion.contains?_nil]
    refine iff_of_false (by simp) ?_
    intro ⟨hflipped, horder, _⟩
    rcases hreason with hempty | hnull | hinverted
    · exact hflipped (Interval.isEmpty_iff_flipped.mp hempty)
    · exact hnever hnull
    · exact horder (isInverted_iff_outOfOrder.mp hinverted)
  · have hflipped : ¬ c.interval.Flipped := by
      rw [← Interval.isEmpty_iff_flipped, hempty]
      exact Bool.false_ne_true
    have horder : ¬ c.interval.OutOfOrder := by
      rw [← isInverted_iff_outOfOrder, hinverted]
      exact Bool.false_ne_true
    have hresolved : c.resolved =
        if ((!c.interval.lower.isFinite || c.interval.lower.isNull) || c.interval.upper.isNull) = true
        then .unconstrained else c.interval := by
      simp only [resolved, hsem]
    rw [heval, contains?_resolved_iff hi, hresolved]
    split
    · next hwide =>
        refine iff_of_true (Interval.admits_unconstrained v) ⟨hflipped, horder, .inr ?_⟩
        simpa [or_assoc] using hwide
    · next hwide =>
        simp only [Bool.or_eq_true, Bool.not_eq_true', not_or] at hwide
        obtain ⟨⟨hfinite, hlower⟩, hupper⟩ := hwide
        constructor
        · exact fun hadmits => ⟨hflipped, horder, .inl hadmits⟩
        · intro ⟨_, _, h⟩
          rcases h with hadmits | hinfinite | hnull | hnull
          · exact hadmits
          · exact absurd hinfinite hfinite
          · exact absurd hnull hlower
          · exact absurd hnull hupper

/-- The evaluation contains what the constraint denotes. -/
theorem contains?_evaluate_iff_denotes (hi : c.interval.On S) (hv : v.CoherentAt S) :
    c.evaluate.contains? v = some true ↔ c.Denotes v := by
  unfold Denotes
  cases hsem : c.semantics with
  | matchesNothing =>
      rw [contains?_evaluate_matchesNothing_iff hi hv hsem, not_neverTrue_iff hsem,
        ← Interval.contains?_eq_true_iff hi]
      simp [Interval.isUnconstrained]
  | matchesNull =>
      rw [contains?_evaluate_matchesNull_iff hi hv hsem, ← Interval.contains?_eq_true_iff hi]
  | matchesAnything =>
      rw [contains?_evaluate_matchesAnything_iff hi hsem, ← Interval.contains?_eq_true_iff hi]

theorem length_evaluate_le_one (c : RangeConstraint) : c.evaluate.intervals.length ≤ 1 := by
  rcases c.evaluate_cases with ⟨heval, -⟩ | ⟨heval, -, -, -⟩
  · rw [heval]
    exact Nat.zero_le 1
  · rw [heval]
    exact Nat.le_refl 1

/-- The evaluation knows of a value that can be compared with the coordinates and with null. -/
theorem contains?_evaluate_ne_none (hi : c.interval.On S) (hnull : S .null)
    (hv : ∀ {a}, S a → v.compare? a ≠ none) : c.evaluate.contains? v ≠ none := by
  rw [IntervalUnion.contains?_eq_of_known]
  · exact Option.some_ne_none _
  · intro i hmem
    rcases c.evaluate_cases with ⟨heval, -⟩ | ⟨heval, -, -, -⟩
    · rw [heval] at hmem
      exact absurd hmem List.not_mem_nil
    · rw [heval] at hmem
      obtain rfl := List.mem_singleton.mp hmem
      exact Interval.contains?_ne_none (on_resolved hi hnull) hv

end RangeConstraint

/-! ### Ranges built step by step -/

/-- **Evaluation gives what the range denotes.** Take any changes with literal coordinates that lead
to a range whose coordinates are null or of the variant of `w`, and a value that is null or of this
variant. The evaluation has at most one interval. It contains the value if the range denotes it, and
otherwise it is known not to. -/
theorem RangeBuilder.evaluate_denotes {domain : Domain} {semantics : NullSemantics} {rounds : Bool}
    {steps : List RangeStep} {c : RangeConstraint} {w v : Literal}
    (hsteps : ∀ step ∈ steps, step.IsLiteral)
    (hc : ((new domain semantics rounds).run steps).build = c)
    (hpeers : ∀ l, c.interval.StandsAt l → w.PeerOf l) (hv : w.PeerOf v) :
    c.evaluate.intervals.length ≤ 1 ∧
      (c.evaluate.contains? v = some true ↔ c.Denotes v) ∧
      (¬ c.Denotes v → c.evaluate.contains? v = some false) := by
  have hon : c.interval.On fun _ => True := by
    rw [← hc]
    exact on_run Interval.on_unconstrained hsteps
  have hi : c.interval.On w.PeerOf := hon.of_standsAt hpeers
  have hdenotes : c.evaluate.contains? v = some true ↔ c.Denotes v :=
    RangeConstraint.contains?_evaluate_iff_denotes hi ((Literal.uniform_peerOf w).coherentAt hv)
  refine ⟨c.length_evaluate_le_one, hdenotes, fun hout => ?_⟩
  obtain ⟨answer, hanswer⟩ := Option.ne_none_iff_exists'.mp
    (RangeConstraint.contains?_evaluate_ne_none hi (.inl rfl) hv.compare?_ne_none)
  cases answer with
  | true => exact absurd (hdenotes.mp hanswer) hout
  | false => exact hanswer

/-- The values below 7 of a nullable column of small integers. -/
def belowSeven : RangeConstraint where
  domain := ⟨.int8, true⟩
  semantics := .matchesNothing
  interval := ⟨.negInfinity, .finite .upper .opened (.literal (.int 7))⟩

/-- The value 3 is below 7, and null, which lies in the interval, is not. -/
theorem evaluate_denotes_belowSeven :
    belowSeven.evaluate.contains? (.int 3) = some true ∧
      belowSeven.interval.contains? .null = some true ∧
      belowSeven.evaluate.contains? .null = some false := by
  have hsteps : ∀ step ∈ [RangeStep.upper (.literal (.int 7)) .opened], step.IsLiteral := by
    intro step hstep
    obtain rfl := List.mem_singleton.mp hstep
    exact ⟨_, rfl⟩
  have hc : ((RangeBuilder.new ⟨.int8, true⟩ .matchesNothing true).run
      [.upper (.literal (.int 7)) .opened]).build = belowSeven := by
    decide
  have hpeers : ∀ l, belowSeven.interval.StandsAt l → (Literal.int 3).PeerOf l := by
    intro l hl
    obtain rfl : Literal.int 7 = l := by
      simpa [Interval.StandsAt, belowSeven, Endpoint.coordinate?] using hl
    exact .inr .int
  have hthree := RangeBuilder.evaluate_denotes (v := .int 3) hsteps hc hpeers (.inr .int)
  have hnull := RangeBuilder.evaluate_denotes (v := .null) hsteps hc hpeers (.inl rfl)
  refine ⟨hthree.2.1.mpr ?_, by decide, hnull.2.2 ?_⟩
  · simp only [RangeConstraint.Denotes, belowSeven]
    decide
  · simp only [RangeConstraint.Denotes, belowSeven]
    decide

end QueryAnalysis
