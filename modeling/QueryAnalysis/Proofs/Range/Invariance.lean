import QueryAnalysis.Proofs.Range.Exact
import QueryAnalysis.Proofs.Range.Partition

/-!
# Rounding changes no integer

Make the same changes on a builder that rounds and on one that does not. The two hold different
endpoints: one has moved them to integers or to infinities, the other keeps fractions and coordinates
beyond the domain, and where one sees that a range is empty by an infinity on the wrong side, the other
sees it by coordinates out of order, or not at all. Which integers of the domain match is the same.

What carries the proof is a relation between the two builders (`RangeBuilder.InStep`): on each side
their endpoints admit the same integers of the domain and are null together
(`Endpoint.SameIntegers`). Every change keeps it (`RangeBuilder.InStep.apply`), hence every sequence
of changes. What a range contains, and so what its complement contains, depends on no more than that
(`RangeConstraint.contains?_eq_of_sameIntegers`).
-/

namespace QueryAnalysis

variable {least greatest : Int}

/-! ### Endpoints and intervals -/

namespace Endpoint

variable {role : Role}

/-- Two endpoints on a side, at exact literals, that are null together and admit the same integers of
a domain. -/
structure SameIntegers (least greatest : Int) (role : Role) (e e' : Endpoint) : Prop where
  left : e.On role Literal.IsExact
  right : e'.On role Literal.IsExact
  isNull_eq : e.isNull = e'.isNull
  admits_iff : ∀ {i : Int64}, least ≤ i.toInt ∧ i.toInt ≤ greatest →
    (e.Admits role (.int i) ↔ e'.Admits role (.int i))

theorem SameIntegers.refl {e : Endpoint} (h : e.On role Literal.IsExact) :
    SameIntegers least greatest role e e :=
  ⟨h, h, rfl, fun _ => Iff.rfl⟩

/-- Rounding an exact coordinate. -/
theorem sameIntegers_rounded {domain : Domain}
    (hrange : domain.type.integralRange? = some (least, greatest)) {l : Literal} (hl : l.IsExact)
    (s : Strictness) :
    SameIntegers least greatest role (rounded domain role s (.literal l))
      (finite role s (.literal l)) := by
  by_cases hnull : l = .null
  · subst hnull
    rw [rounded_of_integral?_eq_none rfl]
    exact .refl ⟨rfl, trivial⟩
  · have hplain : (finite role s (.literal l)).On role (· ≠ .null) := ⟨rfl, hnull⟩
    have hrounded : (rounded domain role s (.literal l)).On role (· ≠ .null) :=
      on_rounded domain hnull (by simp)
    refine ⟨on_rounded domain hl fun _ => trivial, ⟨rfl, hl⟩, ?_, fun {i} hi => ?_⟩
    · rw [hrounded.isNull_eq_false, hplain.isNull_eq_false]
    · rw [admits_rounded_iff hrange hi hnull, admits_finite_iff,
        Literal.compare?_eq_exactCompare? i hl hnull]

end Endpoint

/-- Two intervals whose endpoints admit the same integers of a domain. -/
structure Interval.SameIntegers (least greatest : Int) (i i' : Interval) : Prop where
  lower : Endpoint.SameIntegers least greatest .lower i.lower i'.lower
  upper : Endpoint.SameIntegers least greatest .upper i.upper i'.upper

namespace Interval.SameIntegers

variable {i i' : Interval} (h : i.SameIntegers least greatest i')

include h

theorem on_left : i.On Literal.IsExact :=
  ⟨h.lower.left, h.upper.left⟩

theorem on_right : i'.On Literal.IsExact :=
  ⟨h.lower.right, h.upper.right⟩

theorem admits_iff {n : Int64} (hn : least ≤ n.toInt ∧ n.toInt ≤ greatest) :
    i.Admits (.int n) ↔ i'.Admits (.int n) := by
  constructor
  · intro hi
    exact ⟨(h.lower.admits_iff hn).mp hi.lower, (h.upper.admits_iff hn).mp hi.upper⟩
  · intro hi'
    exact ⟨(h.lower.admits_iff hn).mpr hi'.lower, (h.upper.admits_iff hn).mpr hi'.upper⟩

end Interval.SameIntegers

/-! ### Constraints -/

namespace RangeConstraint

variable {c c' : RangeConstraint} {S : Literal → Prop} {v : Literal}

/-- The evaluation knows of a value that may be compared with the coordinates whether it has it, and
the complement says the opposite. -/
theorem exists_contains? (hi : c.interval.On S) (hv : v.OrderedAt S) :
    ∃ answer, c.evaluate.contains? v = some answer ∧ c.complement.contains? v = some !answer := by
  have hone := hits_eq_one hi hv
  rw [hits_append] at hone
  refine ⟨decide (0 < hits c.evaluate.intervals v), ?_, ?_⟩
  · exact IntervalUnion.contains?_eq_of_known fun i hmem =>
      contains?_ne_none_of_orderedAt hi hv (List.mem_append_left _ hmem)
  · rw [IntervalUnion.contains?_eq_of_known fun i hmem =>
      contains?_ne_none_of_orderedAt hi hv (List.mem_append_right _ hmem), ← decide_not]
    congr 2
    exact propext ⟨fun h => by omega, fun h => by omega⟩

/-- **What a range contains depends on what its endpoints admit**, unless null matches anything. -/
theorem contains?_eq_of_sameIntegers
    (h : Interval.SameIntegers least greatest c.interval c'.interval)
    (hsem : c.semantics = c'.semantics) (hany : c.semantics ≠ .matchesAnything) {i : Int64}
    (hi : least ≤ i.toInt ∧ i.toInt ≤ greatest) :
    c.evaluate.contains? (.int i) = c'.evaluate.contains? (.int i) ∧
      c.complement.contains? (.int i) = c'.complement.contains? (.int i) := by
  have hordered := Literal.orderedAt_int i
  have hnever : c.NeverTrue ↔ c'.NeverTrue := by
    rw [NeverTrue, NeverTrue, hsem, h.lower.isNull_eq, h.upper.isNull_eq]
  have heval : c.evaluate.contains? (.int i) = some true ↔
      c'.evaluate.contains? (.int i) = some true := by
    rw [contains?_evaluate_iff h.on_left hordered.coherent hordered.ne_null hany,
      contains?_evaluate_iff h.on_right hordered.coherent hordered.ne_null (hsem ▸ hany),
      h.admits_iff hi, hnever]
  obtain ⟨answer, hevaluate, hcomplement⟩ := exists_contains? h.on_left hordered
  obtain ⟨answer', hevaluate', hcomplement'⟩ := exists_contains? h.on_right hordered
  have hsame : answer = answer' := by
    rw [hevaluate, hevaluate', Option.some.injEq, Option.some.injEq] at heval
    exact Bool.eq_iff_iff.mpr heval
  rw [hevaluate, hevaluate', hcomplement, hcomplement', hsame]
  exact ⟨rfl, rfl⟩

end RangeConstraint

/-! ### Builders -/

/-- The coordinate is null, an integer, or a finite double of a magnitude below 2 ^ 53. -/
def Coordinate.IsExact : Coordinate → Prop
  | literal l => l.IsExact
  | parameter _ => False

/-- The coordinate that the step speaks of, if there is one, is exact. -/
def RangeStep.IsExact : RangeStep → Prop
  | .point c | .lower c _ | .upper c _ => c.IsExact
  | _ => True

namespace RangeBuilder

/-- A builder that rounds and one that does not, which have come to the same integers. -/
structure InStep (least greatest : Int) (b b' : RangeBuilder) : Prop where
  rounds : b.rounds = true
  rounds' : b'.rounds = false
  range : b.domain.type.integralRange? = some (least, greatest)
  semantics_eq : b.semantics = b'.semantics
  semantics_ne : b.semantics ≠ .matchesAnything
  interval : Interval.SameIntegers least greatest b.interval b'.interval

namespace InStep

variable {b b' : RangeBuilder}

theorem endpoint (h : InStep least greatest b b') {c : Coordinate} (hc : c.IsExact) (role : Role)
    (s : Strictness) :
    Endpoint.SameIntegers least greatest role (b.endpoint role s c) (b'.endpoint role s c) := by
  cases c with
  | parameter index => exact hc.elim
  | literal l =>
      simp only [RangeBuilder.endpoint, h.rounds, h.rounds', if_true, Bool.false_eq_true, if_false]
      exact Endpoint.sameIntegers_rounded h.range hc s

/-- A builder keeps in step if its interval does. -/
theorem with_interval (h : InStep least greatest b b') {i i' : Interval}
    (hlower : Endpoint.SameIntegers least greatest .lower i.lower i'.lower)
    (hupper : Endpoint.SameIntegers least greatest .upper i.upper i'.upper) :
    InStep least greatest { b with interval := i } { b' with interval := i' } :=
  ⟨h.rounds, h.rounds', h.range, h.semantics_eq, h.semantics_ne, ⟨hlower, hupper⟩⟩

theorem setPoint (h : InStep least greatest b b') {c : Coordinate} (hc : c.IsExact) :
    InStep least greatest (b.setPoint c) (b'.setPoint c) := by
  refine ⟨h.rounds, h.rounds', h.range, ?_, ?_, ⟨h.endpoint hc .lower .closed,
    h.endpoint hc .upper .closed⟩⟩
  · simp only [RangeBuilder.setPoint, h.semantics_eq]
  · -- At null the semantics changes, but not to the excluded one.
    simp only [RangeBuilder.setPoint]
    split
    · decide
    · exact h.semantics_ne

/-- Every change keeps the builders in step. -/
theorem apply (h : InStep least greatest b b') {step : RangeStep} (hstep : step.IsExact) :
    InStep least greatest (b.apply step) (b'.apply step) := by
  have hfree : ∀ role side, Endpoint.SameIntegers least greatest role (.free side) (.free side) :=
    fun role side => .refl (by cases side <;> trivial)
  cases step with
  | point c => exact h.setPoint hstep
  | null => exact h.setPoint trivial
  | lower c s => exact h.with_interval (h.endpoint hstep .lower s) h.interval.upper
  | upper c s => exact h.with_interval h.interval.lower (h.endpoint hstep .upper s)
  | unsetLower => exact h.with_interval (hfree .lower .lower) h.interval.upper
  | unsetUpper => exact h.with_interval h.interval.lower (hfree .upper .upper)
  | unconstrained => exact h.with_interval (hfree .lower .lower) (hfree .upper .upper)
  | empty => exact h.with_interval (hfree .lower .upper) (hfree .upper .lower)

theorem run (h : InStep least greatest b b') {steps : List RangeStep}
    (hsteps : ∀ step ∈ steps, step.IsExact) : InStep least greatest (b.run steps) (b'.run steps) := by
  induction steps generalizing b b' with
  | nil => exact h
  | cons step steps ih =>
      rw [run_cons, run_cons]
      exact ih (h.apply (hsteps step List.mem_cons_self))
        fun step' hmem => hsteps step' (List.mem_cons_of_mem step hmem)

end InStep

/-- **Rounding changes no integer.** Over an integral domain, make the same changes with and without
rounding, at null, at integers and at doubles of magnitudes below 2 ^ 53. The two ranges agree about
every integer of the domain, and so do their complements. -/
theorem rounding_changes_no_integer {domain : Domain}
    (hrange : domain.type.integralRange? = some (least, greatest)) {semantics : NullSemantics}
    (hsem : semantics ≠ .matchesAnything) {steps : List RangeStep}
    (hsteps : ∀ step ∈ steps, step.IsExact) {i : Int64}
    (hi : least ≤ i.toInt ∧ i.toInt ≤ greatest) :
    let rounding := ((new domain semantics true).run steps).build
    let plain := ((new domain semantics false).run steps).build
    rounding.evaluate.contains? (.int i) = plain.evaluate.contains? (.int i) ∧
      rounding.complement.contains? (.int i) = plain.complement.contains? (.int i) := by
  have hnew : InStep least greatest (new domain semantics true) (new domain semantics false) :=
    ⟨rfl, rfl, hrange, rfl, hsem, ⟨.refl trivial, .refl trivial⟩⟩
  have hrun := hnew.run hsteps
  exact RangeConstraint.contains?_eq_of_sameIntegers hrun.interval hrun.semantics_eq
    hrun.semantics_ne hi

end RangeBuilder

/-- Above two and a half, up to three hundred. -/
def fromTwoAndAHalf : List RangeStep :=
  [.lower (.literal (.float (.nearest false 5 2))) .opened, .upper (.literal (.int 300)) .closed]

/-- Over integers of eight bits rounding moves both ends, one to three and one to plus infinity. Three
is in either range, and in neither complement. -/
theorem rounding_changes_no_integer_fromTwoAndAHalf :
    let domain : Domain := ⟨.int8, true⟩
    let rounding := ((RangeBuilder.new domain .matchesNothing true).run fromTwoAndAHalf).build
    let plain := ((RangeBuilder.new domain .matchesNothing false).run fromTwoAndAHalf).build
    rounding.interval = ⟨.finite .lower .closed (.literal (.int 3)), .posInfinity⟩ ∧
      plain.evaluate.contains? (.int 3) = some true ∧
      plain.complement.contains? (.int 3) = some false := by
  have hrange : (Domain.mk .int8 true).type.integralRange? = some (-128, 127) := rfl
  have hsem : NullSemantics.matchesNothing ≠ .matchesAnything := by decide
  have hsteps : ∀ step ∈ fromTwoAndAHalf, step.IsExact := by
    intro step hstep
    simp only [fromTwoAndAHalf, List.mem_cons, List.not_mem_nil, or_false] at hstep
    rcases hstep with rfl | rfl
    · exact ⟨by decide +kernel, by decide +kernel⟩
    · trivial
  have hrounded : ((RangeBuilder.new ⟨.int8, true⟩ .matchesNothing true).run fromTwoAndAHalf).build
      = ⟨⟨.int8, true⟩, .matchesNothing,
          ⟨.finite .lower .closed (.literal (.int 3)), .posInfinity⟩⟩ := by
    decide +kernel
  obtain ⟨hevaluate, hcomplement⟩ :=
    RangeBuilder.rounding_changes_no_integer (i := 3) hrange hsem hsteps (by decide)
  refine ⟨congrArg RangeConstraint.interval hrounded, ?_, ?_⟩
  · rw [← hevaluate, hrounded]
    decide
  · rw [← hcomplement, hrounded]
    decide

/-- At 2 ^ 53 the two part: the next integer is above it, but meets it as the same double. -/
example :
    let steps : List RangeStep := [.lower (.literal (.float (.nearest false (2 ^ 53) 1))) .opened]
    let answer := fun rounds => (((RangeBuilder.new ⟨.int64, false⟩ .matchesNull rounds).run
      steps).build.evaluate.contains? (.int 9007199254740993))
    answer true = some true ∧ answer false = some false := by
  decide +kernel

end QueryAnalysis
