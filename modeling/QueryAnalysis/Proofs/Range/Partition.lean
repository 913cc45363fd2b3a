import QueryAnalysis.Proofs.Range.Evaluation
import QueryAnalysis.Proofs.Range.Rounding

/-!
# Evaluations and complements partition the values

Whatever changes led to a range, its evaluation and its complement share out the values other than
null: a value of one variant with the coordinates lies in exactly one interval of the two unions
together (`RangeBuilder.complement_partitions`). What carries the proof is that a range which is not
empty has endpoints that do not both fail (`RangeConstraint.admits_lower_or_upper`); the parts of the
complement below and above it then stand for the failure of one endpoint each.

The changes of a builder keep the endpoints on their sides (`RangeBuilder.on_run`), which is all that
the partition asks of a range.
-/

namespace QueryAnalysis

variable {S : Literal → Prop} {v : Literal}

/-! ### Known answers -/

namespace Endpoint

/-- A value that can be compared with the coordinate is known to satisfy the endpoint or not to. -/
theorem admits?_ne_none {e : Endpoint} {role : Role} (he : e.On role S)
    (hv : ∀ {c}, S c → v.compare? c ≠ none) : e.admits? role v ≠ none := by
  rcases he.cases with rfl | rfl | ⟨s, c, rfl, hc⟩
  · cases role <;> simp [free, admits?, above?, below?]
  · cases role <;> simp [blocked, free, Role.opposite, admits?, above?, below?]
  · rw [admits?_finite]
    simpa using hv hc

/-- What an endpoint does not admit lies on the other side of it. -/
theorem admits_opposite_iff (role : Role) (s : Strictness) {c : Literal}
    (hknown : v.compare? c ≠ none) :
    (finite role.opposite s.complement (.literal c)).Admits role.opposite v ↔
      ¬ (finite role s (.literal c)).Admits role v := by
  obtain ⟨x, hx⟩ := Option.ne_none_iff_exists'.mp hknown
  rw [admits_finite_iff, admits_finite_iff, hx]
  cases role <;> cases s <;> cases x <;>
    simp [Strictness.complement, Strictness.Allows, Role.opposite, Role.inward, Role.outward]

end Endpoint

namespace Interval

theorem contains?_ne_none {i : Interval} (hi : i.On S) (hv : ∀ {c}, S c → v.compare? c ≠ none) :
    i.contains? v ≠ none := by
  have hlower : i.lower.above? v ≠ none := Endpoint.admits?_ne_none hi.lower hv
  have hupper : i.upper.below? v ≠ none := Endpoint.admits?_ne_none hi.upper hv
  unfold contains?
  split
  · simp
  · split
    · next hnone => exact absurd hnone hlower
    · simp
    · exact hupper

end Interval

/-- The number of intervals in a list that are known to contain a value. -/
def hits (intervals : List Interval) (v : Literal) : Nat :=
  intervals.countP fun i => decide (i.contains? v = some true)

theorem hits_append (is js : List Interval) (v : Literal) :
    hits (is ++ js) v = hits is v + hits js v :=
  List.countP_append

theorem hits_singleton {i : Interval} (hi : i.On S) :
    hits [i] v = if i.Admits v then 1 else 0 := by
  have hcontains := Interval.contains?_eq_true_iff (v := v) hi
  simp [hits, List.countP_cons, hcontains]

/-- Where every interval knows the answer, the union does. -/
theorem IntervalUnion.contains?_eq_of_known {u : IntervalUnion}
    (h : ∀ i ∈ u.intervals, i.contains? v ≠ none) :
    u.contains? v = some (decide (0 < hits u.intervals v)) := by
  have hknown : none ∉ u.intervals.map fun i => i.contains? v := by
    intro hmem
    obtain ⟨i, hi, hnone⟩ := List.mem_map.mp hmem
    exact h i hi hnone
  have hsome : some true ∈ (u.intervals.map fun i => i.contains? v) ↔ 0 < hits u.intervals v := by
    rw [hits, List.countP_pos_iff, List.mem_map]
    simp
  unfold contains?
  simp only [hsome, hknown, if_false]
  by_cases hpos : 0 < hits u.intervals v
  · rw [if_pos hpos, decide_eq_true hpos]
  · rw [if_neg hpos, decide_eq_false hpos]

/-! ### Endpoints that have not crossed -/

/-- A value that is not above a lower coordinate is below the upper one, if the endpoints have not
crossed there. -/
theorem Strictness.allows_upper_of_not_crossed {x y : Ordering} {s s' : Strictness} (hx : x ≠ .gt)
    (hy : y.then (s.across s') ≠ .gt) : s'.Allows .upper (x.then y) := by
  cases x with
  | gt => exact absurd rfl hx
  | lt => cases s' <;> simp [Allows, Role.inward, Role.outward]
  | eq =>
      cases y with
      | gt => exact absurd rfl hy
      | lt => cases s' <;> simp [Allows, Role.inward, Role.outward]
      | eq =>
          cases s' with
          | closed => simp [Allows, Role.outward]
          | opened => cases s <;> exact absurd rfl hy

namespace RangeConstraint

variable {c : RangeConstraint}

/-- The endpoints of a range that is neither empty nor inverted do not both fail. -/
theorem admits_lower_or_upper (hi : c.interval.On S) (hv : v.OrderedAt S)
    (hempty : c.interval.isEmpty = false) (hinverted : c.isInverted = false) :
    c.interval.lower.Admits .lower v ∨ c.interval.upper.Admits .upper v := by
  obtain ⟨domain, semantics, lower, upper⟩ := c
  rcases hi.lower.cases with rfl | rfl | ⟨s, a, rfl, ha⟩
  · exact .inl (Endpoint.admits_free .lower v)
  · exact absurd (hi.isEmpty_iff.mpr (.inl rfl)) (by simp [hempty])
  rcases hi.upper.cases with rfl | rfl | ⟨s', b, rfl, hb⟩
  · exact .inr (Endpoint.admits_free .upper v)
  · exact absurd (hi.isEmpty_iff.mpr (.inr rfl)) (by simp [hempty])
  obtain ⟨x, hx⟩ := Option.ne_none_iff_exists'.mp (hv.compare?_ne_none hv.mem ha)
  obtain ⟨y, hy⟩ := Option.ne_none_iff_exists'.mp (hv.compare?_ne_none ha hb)
  by_cases hxo : x = .gt
  · left
    refine Endpoint.admits_finite_iff.mpr ⟨x, hx, ?_⟩
    cases s <;> simp [Strictness.Allows, Role.inward, Role.outward, hxo]
  · right
    have hcross : y.then (s.across s') ≠ .gt := by
      intro hgt
      simp only [isInverted, Endpoint.coordinate?, Coordinate.compare?, hy, Endpoint.isClosed,
        Endpoint.strictness] at hinverted
      cases y <;> cases s <;> cases s' <;> simp [Strictness.across] at hgt hinverted
    have hyo : y ≠ .gt := by
      rintro rfl
      exact hcross rfl
    -- From the value up to the lower coordinate and on to the upper one.
    exact Endpoint.admits_finite_iff.mpr
      ⟨_, hv.coherent .upper ha hb hx hy hxo hyo, Strictness.allows_upper_of_not_crossed hxo hcross⟩

/-! ### The parts of a complement -/

/-- The part below an interval contains a value just if the lower endpoint fails. -/
theorem hits_complementBelow {i : Interval} (hi : i.On S) (hv : v.OrderedAt S)
    (hempty : i.isEmpty = false) :
    hits (complementBelow i) v = if i.lower.Admits .lower v then 0 else 1 := by
  obtain ⟨lower, upper⟩ := i
  rcases hi.lower.cases with rfl | rfl | ⟨s, a, rfl, ha⟩
  · rw [if_pos (Endpoint.admits_free .lower v)]
    rfl
  · exact absurd (hi.isEmpty_iff.mpr (.inl rfl)) (by simp [hempty])
  by_cases hnull : a = .null
  · subst hnull
    have hadmits : (Endpoint.finite .lower s (.literal .null)).Admits .lower v := by
      refine Endpoint.admits_finite_iff.mpr ⟨.gt, Literal.compare?_null_right hv.ne_null, ?_⟩
      cases s <;> simp [Strictness.Allows, Role.inward, Role.outward]
    rw [if_pos hadmits]
    rfl
  · have hon : Interval.On S ⟨.aboveNull, .finite .upper s.complement (.literal a)⟩ :=
      ⟨⟨rfl, hv.mem_null⟩, ⟨rfl, ha⟩⟩
    have hknown := hv.compare?_ne_none hv.mem ha
    have hopposite := Endpoint.admits_opposite_iff .lower s hknown
    rw [complementBelow_eq rfl hnull, hits_singleton hon]
    by_cases hadmits : (Endpoint.finite .lower s (.literal a)).Admits .lower v
    · rw [if_pos hadmits, if_neg fun h => hopposite.mp h.upper hadmits]
    · rw [if_neg hadmits, if_pos ⟨Endpoint.admits_aboveNull hv.ne_null, hopposite.mpr hadmits⟩]

/-- The part above an interval contains a value just if the upper endpoint fails. -/
theorem hits_complementAbove {i : Interval} (hi : i.On S) (hv : v.OrderedAt S)
    (hempty : i.isEmpty = false) :
    hits (complementAbove i) v = if i.upper.Admits .upper v then 0 else 1 := by
  obtain ⟨lower, upper⟩ := i
  rcases hi.upper.cases with rfl | rfl | ⟨s, a, rfl, ha⟩
  · rw [if_pos (Endpoint.admits_free .upper v)]
    rfl
  · exact absurd (hi.isEmpty_iff.mpr (.inr rfl)) (by simp [hempty])
  have hon : Interval.On S ⟨.finite .lower s.complement (.literal a), .posInfinity⟩ :=
    ⟨⟨rfl, ha⟩, trivial⟩
  have hknown := hv.compare?_ne_none hv.mem ha
  have hopposite := Endpoint.admits_opposite_iff .upper s hknown
  have hpart : complementAbove ⟨lower, .finite .upper s (.literal a)⟩
      = [⟨.finite .lower s.complement (.literal a), .posInfinity⟩] := rfl
  rw [hpart, hits_singleton hon]
  by_cases hadmits : (Endpoint.finite .upper s (.literal a)).Admits .upper v
  · rw [if_pos hadmits, if_neg fun h => hopposite.mp h.lower hadmits]
  · rw [if_neg hadmits, if_pos ⟨hopposite.mpr hadmits, Endpoint.admits_free .upper v⟩]

/-- The intervals of a complement stand at null and where the interval stands. -/
theorem on_of_mem_complement {i j : Interval} (hi : i.On S) (hnull : S .null)
    (hj : j ∈ complementBelow i ++ complementAbove i) : j.On S := by
  obtain ⟨lower, upper⟩ := i
  rcases List.mem_append.mp hj with hj | hj
  · rcases hi.lower.cases with rfl | rfl | ⟨s, a, rfl, ha⟩
    · exact absurd hj List.not_mem_nil
    · exact absurd hj List.not_mem_nil
    · simp only [complementBelow, Endpoint.coordinate?] at hj
      split at hj
      · exact absurd hj List.not_mem_nil
      · rw [List.mem_singleton.mp hj]
        exact ⟨⟨rfl, hnull⟩, ⟨rfl, ha⟩⟩
  · rcases hi.upper.cases with rfl | rfl | ⟨s, a, rfl, ha⟩
    · exact absurd hj List.not_mem_nil
    · exact absurd hj List.not_mem_nil
    · rw [List.mem_singleton.mp hj]
      exact ⟨⟨rfl, ha⟩, trivial⟩

/-! ### The partition -/

/-- A value that may be compared with the coordinates is in exactly one interval. -/
theorem hits_eq_one (hi : c.interval.On S) (hv : v.OrderedAt S) :
    hits (c.evaluate.intervals ++ c.complement.intervals) v = 1 := by
  rcases c.evaluate_cases with ⟨heval, -⟩ | ⟨heval, hempty, hnever, hinverted⟩
  · simp only [complement, heval]
    exact (hits_singleton (S := S) Interval.on_unconstrained).trans
      (if_pos (Interval.admits_unconstrained v))
  · -- Of the two sides at most one fails, and the part of the complement there has the value.
    have hon : c.resolved.On S := on_resolved hi hv.mem_null
    have hside := admits_lower_or_upper hi hv hempty hinverted
    have hside : c.resolved.lower.Admits .lower v ∨ c.resolved.upper.Admits .upper v := by
      rcases resolved_cases hi hempty hnever with hres | ⟨-, -, hres⟩ | ⟨-, hres⟩
      · rwa [hres]
      · exact .inl (hres ▸ Endpoint.admits_aboveNull hv.ne_null)
      · exact .inl (hres ▸ Endpoint.admits_free .lower v)
    have hempty : c.resolved.isEmpty = false := by
      rcases resolved_cases hi hempty hnever with hres | ⟨-, -, hres⟩ | ⟨-, hres⟩
      · rwa [hres]
      · rw [hres]
        rw [Interval.isEmpty, Bool.or_eq_false_iff] at hempty ⊢
        exact ⟨rfl, hempty.2⟩
      · rw [hres]
        rfl
    rw [complement_of_evaluate_eq heval, heval, hits_append, hits_append, hits_singleton hon,
      hits_complementBelow hon hv hempty, hits_complementAbove hon hv hempty]
    by_cases hlower : c.resolved.lower.Admits .lower v <;>
      by_cases hupper : c.resolved.upper.Admits .upper v
    · rw [if_pos ⟨hlower, hupper⟩, if_pos hlower, if_pos hupper]
    · rw [if_neg fun h => hupper h.upper, if_pos hlower, if_neg hupper]
    · rw [if_neg fun h => hlower h.lower, if_neg hlower, if_pos hupper]
    · exact absurd hside (not_or.mpr ⟨hlower, hupper⟩)

/-- Every interval of the evaluation and of the complement knows the answer. -/
theorem contains?_ne_none_of_orderedAt (hi : c.interval.On S) (hv : v.OrderedAt S) {i : Interval}
    (h : i ∈ c.evaluate.intervals ++ c.complement.intervals) : i.contains? v ≠ none := by
  refine Interval.contains?_ne_none (S := S) ?_ (hv.compare?_ne_none hv.mem)
  rcases c.evaluate_cases with ⟨heval, -⟩ | ⟨heval, -, -, -⟩
  · simp only [complement, heval] at h
    rw [List.mem_singleton.mp h]
    exact Interval.on_unconstrained
  · have hon : c.resolved.On S := on_resolved hi hv.mem_null
    rw [complement_of_evaluate_eq heval, heval] at h
    rcases List.mem_cons.mp h with rfl | h
    · exact hon
    · exact on_of_mem_complement hon hv.mem_null h

/-- Every value of one variant with the coordinates is in exactly one interval. -/
theorem hits_partition (hi : c.interval.On v.PeerOf) (hv : v.Alike v) :
    hits (c.evaluate.intervals ++ c.complement.intervals) v = 1 :=
  hits_eq_one hi hv.orderedAt

/-- And every interval knows whether it is the one. -/
theorem contains?_ne_none_of_mem (hi : c.interval.On v.PeerOf) (hv : v.Alike v) {i : Interval}
    (h : i ∈ c.evaluate.intervals ++ c.complement.intervals) : i.contains? v ≠ none :=
  contains?_ne_none_of_orderedAt hi hv.orderedAt h

end RangeConstraint

/-! ### Ranges built step by step -/

namespace Interval

/-- One of the endpoints stands at a literal. -/
def StandsAt (i : Interval) (l : Literal) : Prop :=
  i.lower.coordinate? = some (.literal l) ∨ i.upper.coordinate? = some (.literal l)

theorem On.of_standsAt {S S' : Literal → Prop} {i : Interval} (hi : i.On S')
    (h : ∀ l, i.StandsAt l → S l) : i.On S := by
  obtain ⟨lower, upper⟩ := i
  constructor
  · rcases hi.lower.cases with rfl | rfl | ⟨s, a, rfl, -⟩
    · exact Endpoint.on_free .lower
    · exact Endpoint.on_free .upper
    · exact ⟨rfl, h a (.inl rfl)⟩
  · rcases hi.upper.cases with rfl | rfl | ⟨s, a, rfl, -⟩
    · exact Endpoint.on_free .upper
    · exact Endpoint.on_free .lower
    · exact ⟨rfl, h a (.inr rfl)⟩

end Interval

/-- The step does not speak of a parameter. -/
def RangeStep.IsLiteral : RangeStep → Prop
  | .point c | .lower c _ | .upper c _ => ∃ l, c = .literal l
  | _ => True

namespace RangeBuilder

theorem on_endpoint (b : RangeBuilder) (role : Role) (s : Strictness) (l : Literal) :
    (b.endpoint role s (.literal l)).On role fun _ => True := by
  unfold endpoint
  split
  · exact Endpoint.on_rounded b.domain trivial fun _ => trivial
  · exact ⟨rfl, trivial⟩

/-- A change keeps the endpoints on their sides. -/
theorem on_apply {b : RangeBuilder} (hb : b.interval.On fun _ => True) {step : RangeStep}
    (hstep : step.IsLiteral) : (b.apply step).interval.On fun _ => True := by
  cases step with
  | point c =>
      obtain ⟨l, rfl⟩ := hstep
      exact ⟨b.on_endpoint .lower .closed l, b.on_endpoint .upper .closed l⟩
  | null => exact ⟨b.on_endpoint .lower .closed .null, b.on_endpoint .upper .closed .null⟩
  | lower c s =>
      obtain ⟨l, rfl⟩ := hstep
      exact ⟨b.on_endpoint .lower s l, hb.upper⟩
  | upper c s =>
      obtain ⟨l, rfl⟩ := hstep
      exact ⟨hb.lower, b.on_endpoint .upper s l⟩
  | unsetLower => exact ⟨trivial, hb.upper⟩
  | unsetUpper => exact ⟨hb.lower, trivial⟩
  | unconstrained | empty => exact ⟨trivial, trivial⟩

/-- Changes keep the endpoints on their sides. -/
theorem on_run {b : RangeBuilder} (hb : b.interval.On fun _ => True) {steps : List RangeStep}
    (hsteps : ∀ step ∈ steps, step.IsLiteral) : (b.run steps).interval.On fun _ => True := by
  induction steps generalizing b with
  | nil => exact hb
  | cons step steps ih =>
      rw [run_cons]
      exact ih (on_apply hb (hsteps step List.mem_cons_self))
        fun step' hmem => hsteps step' (List.mem_cons_of_mem step hmem)

theorem domain_run (b : RangeBuilder) (steps : List RangeStep) : (b.run steps).domain = b.domain := by
  induction steps generalizing b with
  | nil => rfl
  | cons step steps ih =>
      rw [run_cons, ih]
      cases step <;> rfl

/-- **Evaluation and complement partition the values.** Whatever literal coordinates led to a range,
a value of one variant with those that the range holds is in exactly one interval of its evaluation
and its complement. Null is in the evaluation, under three-valued logic and over a nullable domain,
just if nothing is bounded, and in the complement just if the evaluation is empty. -/
theorem complement_partitions {domain : Domain} {semantics : NullSemantics} {rounds : Bool}
    {steps : List RangeStep} {c : RangeConstraint} (hsteps : ∀ step ∈ steps, step.IsLiteral)
    (hc : ((new domain semantics rounds).run steps).build = c) :
    (∀ v : Literal, v.Alike v → (∀ l, c.interval.StandsAt l → v.PeerOf l) →
      hits (c.evaluate.intervals ++ c.complement.intervals) v = 1 ∧
      ((c.evaluate.contains? v = some true ∧ c.complement.contains? v = some false) ∨
        (c.evaluate.contains? v = some false ∧ c.complement.contains? v = some true))) ∧
    (c.semantics = .matchesNothing → domain.nullable = true →
      (c.evaluate.contains? .null = some true ↔ c.interval.isUnconstrained = true) ∧
      (c.complement.contains? .null = some true ↔ c.evaluate.isEmpty = true)) := by
  have hon : c.interval.On fun _ => True := by
    rw [← hc]
    exact on_run Interval.on_unconstrained hsteps
  have hdomain : c.domain = domain := by
    rw [← hc]
    exact domain_run _ steps
  constructor
  · intro v hv hpeers
    have hpeer := hon.of_standsAt hpeers
    have hone := RangeConstraint.hits_partition hpeer hv
    refine ⟨hone, ?_⟩
    rw [IntervalUnion.contains?_eq_of_known fun i hi =>
        RangeConstraint.contains?_ne_none_of_mem hpeer hv (List.mem_append_left _ hi),
      IntervalUnion.contains?_eq_of_known fun i hi =>
        RangeConstraint.contains?_ne_none_of_mem hpeer hv (List.mem_append_right _ hi)]
    rw [hits_append] at hone
    rcases Nat.eq_zero_or_pos (hits c.evaluate.intervals v) with hzero | hpos
    · right
      have hpos : 0 < hits c.complement.intervals v := by omega
      simp [hzero, hpos]
    · left
      have hzero : hits c.complement.intervals v = 0 := by omega
      simp [hzero, hpos]
  · intro hsem hnullable
    refine ⟨?_, RangeConstraint.contains?_complement_null_iff hon hsem⟩
    rw [RangeConstraint.contains?_evaluate_null_iff hon hsem (hdomain ▸ hnullable)]
    exact decide_eq_true_iff.symm

end RangeBuilder

/-- The range `[3, 7)` of a nullable column of small integers. -/
def threeToSeven : RangeConstraint where
  domain := ⟨.int8, true⟩
  semantics := .matchesNothing
  interval :=
    ⟨.finite .lower .closed (.literal (.int 3)), .finite .upper .opened (.literal (.int 7))⟩

/-- The value 7 is in one interval of the evaluation and the complement of `[3, 7)`, and null in
none. -/
theorem complement_partitions_threeToSeven :
    hits (threeToSeven.evaluate.intervals ++ threeToSeven.complement.intervals) (.int 7) = 1 ∧
      threeToSeven.evaluate.contains? .null ≠ some true ∧
      threeToSeven.complement.contains? .null ≠ some true := by
  have hsteps : ∀ step ∈ [RangeStep.lower (.literal (.int 3)) .closed,
      .upper (.literal (.int 7)) .opened], step.IsLiteral := by
    intro step hstep
    simp only [List.mem_cons, List.not_mem_nil, or_false] at hstep
    rcases hstep with rfl | rfl
    · exact ⟨_, rfl⟩
    · exact ⟨_, rfl⟩
  have hpeers : ∀ l, threeToSeven.interval.StandsAt l → (Literal.int 7).PeerOf l := by
    intro l hl
    rcases hl with hl | hl
    · obtain rfl : Literal.int 3 = l := by
        simpa [threeToSeven, Endpoint.coordinate?] using hl
      exact .inr .int
    · obtain rfl : Literal.int 7 = l := by
        simpa [threeToSeven, Endpoint.coordinate?] using hl
      exact .inr .int
  have hc : ((RangeBuilder.new ⟨.int8, true⟩ .matchesNothing true).run
      [.lower (.literal (.int 3)) .closed, .upper (.literal (.int 7)) .opened]).build
        = threeToSeven := by
    decide
  obtain ⟨hvalues, hnull⟩ := RangeBuilder.complement_partitions hsteps hc
  obtain ⟨heval, hcomplement⟩ := hnull rfl rfl
  refine ⟨(hvalues (.int 7) .int hpeers).1, ?_, ?_⟩
  · rw [ne_eq, heval]
    decide
  · rw [ne_eq, hcomplement]
    decide

end QueryAnalysis
