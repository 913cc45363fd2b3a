import QueryAnalysis.Proofs.Range.Binding

/-!
# Answers that are decided before binding

Whether a value lies in a range may be known before the parameters of the range are. Such an answer
does not wait for them: an endpoint that knows its answer stands at no parameter
(`Endpoint.bind_eq_of_admits?`), so a bound interval keeps every answer that was decided before
(`Interval.contains?_bind`).

A range is more than its interval. Binding may reveal a null coordinate or coordinates that are out of
order, and then nothing is left of the evaluation; `RangeConstraint.evaluate_bind_cases` says what
binding makes of it. The evaluation may thereby lose values and the complement may gain some, but a
value that is surely in the evaluation, or surely not in the complement, tells that there was nothing
to bind (`RangeConstraint.bind_eq_of_evaluate`, `RangeConstraint.bind_eq_of_complement`).

There is one way for a decided answer to open up again. A range with a single parameter at both ends is
known to be empty if an end is open, but a double that is no number equals nothing, not even itself.
-/

namespace QueryAnalysis

variable {s : Nat → Literal} {v : Literal} {b : Bool}

/-! ### Endpoints and intervals -/

namespace Endpoint

/-- An endpoint that knows whether it admits a value does not stand at a parameter. -/
theorem bind_eq_of_admits? {e : Endpoint} {role : Role} (h : e.admits? role v = some b) :
    e.bind s = e := by
  match e with
  | negInfinity | posInfinity => rfl
  | finite _ _ (.literal _) => rfl
  | finite _ strictness (.parameter _) => cases role <;> cases strictness <;> exact absurd h nofun

@[simp] theorem role_bind (e : Endpoint) : (e.bind s).role = e.role := by
  cases e <;> rfl

@[simp] theorem isFinite_bind (e : Endpoint) : (e.bind s).isFinite = e.isFinite := by
  cases e <;> rfl

@[simp] theorem isClosed_bind (e : Endpoint) : (e.bind s).isClosed = e.isClosed := by
  cases e <;> rfl

theorem isFinite_of_parameter? {e : Endpoint} {i : Nat} (h : e.parameter? = some i) :
    e.isFinite = true := by
  match e with
  | finite _ _ (.parameter _) => rfl

theorem bind_eq_of_isFinite {e : Endpoint} (h : e.isFinite = false) : e.bind s = e := by
  match e with
  | negInfinity | posInfinity => rfl

/-- Null stays null. -/
theorem isNull_bind {e : Endpoint} (h : e.isNull = true) : (e.bind s).isNull = true := by
  match e with
  | finite _ _ (.literal _) => exact h

end Endpoint

namespace Interval

variable {i : Interval}

@[simp] theorem lower_bind (i : Interval) : (i.bind s).lower = i.lower.bind s := rfl

@[simp] theorem upper_bind (i : Interval) : (i.bind s).upper = i.upper.bind s := rfl

@[simp] theorem isEmpty_bind (i : Interval) : (i.bind s).isEmpty = i.isEmpty := by
  simp [isEmpty]

theorem bind_eq_self_iff : i.bind s = i ↔ i.lower.bind s = i.lower ∧ i.upper.bind s = i.upper := by
  rw [bind]
  exact Interval.mk.injEq .. ▸ Iff.rfl

/-- A decided answer is that of the lower endpoint, or the lower endpoint admits the value and the
answer is that of the upper one. -/
theorem answers_of_contains? (hempty : i.isEmpty = false) (h : i.contains? v = some b) :
    (i.lower.admits? .lower v = some false ∧ b = false) ∨
      (i.lower.admits? .lower v = some true ∧ i.upper.admits? .upper v = some b) := by
  rw [contains?, if_neg (Bool.eq_false_iff.mp hempty)] at h
  split at h
  · exact absurd h (by simp)
  · next hlower => exact .inl ⟨hlower, (Option.some.inj h).symm⟩
  · next hlower => exact .inr ⟨hlower, h⟩

/-- Behind a decided answer the upper endpoint stands at no parameter, if the lower one admits the
value. -/
theorem upper_bind_eq_of_contains? (hempty : i.isEmpty = false) (hlower : i.lower.Admits .lower v)
    (h : i.contains? v = some b) : i.upper.bind s = i.upper := by
  rcases answers_of_contains? hempty h with ⟨hfalse, -⟩ | ⟨-, hupper⟩
  · exact absurd (hlower.symm.trans hfalse) (by simp)
  · exact Endpoint.bind_eq_of_admits? hupper

theorem lower_bind_eq_of_contains? (hempty : i.isEmpty = false) (h : i.contains? v = some b) :
    i.lower.bind s = i.lower := by
  rcases answers_of_contains? hempty h with ⟨hlower, -⟩ | ⟨hlower, -⟩
  · exact Endpoint.bind_eq_of_admits? hlower
  · exact Endpoint.bind_eq_of_admits? hlower

/-- An interval that surely has a value stands at no parameter. -/
theorem bind_eq_of_contains? (h : i.contains? v = some true) : i.bind s = i := by
  have hempty : i.isEmpty = false := by
    by_contra hempty
    rw [contains?, if_pos (Bool.eq_true_of_not_eq_false hempty)] at h
    exact absurd h (by simp)
  exact bind_eq_self_iff.mpr ⟨lower_bind_eq_of_contains? hempty h,
    upper_bind_eq_of_contains? hempty (admits_lower_of_contains? h) h⟩

/-- **A decided answer of an interval stays.** -/
theorem contains?_bind (h : i.contains? v = some b) : (i.bind s).contains? v = some b := by
  cases hempty : i.isEmpty with
  | true =>
      rw [contains?, if_pos hempty] at h
      rwa [contains?, if_pos ((isEmpty_bind i).trans hempty)]
  | false =>
      have hbound : (i.bind s).isEmpty = false := (isEmpty_bind i).trans hempty
      rw [contains?, if_neg (Bool.eq_false_iff.mp hbound), lower_bind, upper_bind]
      rcases answers_of_contains? hempty h with ⟨hlower, rfl⟩ | ⟨hlower, hupper⟩
      · rw [Endpoint.bind_eq_of_admits? hlower, show i.lower.above? v = some false from hlower]
      · rw [Endpoint.bind_eq_of_admits? hlower, show i.lower.above? v = some true from hlower,
          Endpoint.bind_eq_of_admits? hupper]
        exact hupper

end Interval

namespace IntervalUnion

/-- A union surely has not got a value just if none of its intervals may have it. -/
theorem contains?_eq_false_iff {u : IntervalUnion} :
    u.contains? v = some false ↔ ∀ i ∈ u.intervals, i.contains? v = some false := by
  rw [← List.forall_mem_map (P := (· = some false))]
  unfold contains?
  simp only
  split
  · next htrue => exact ⟨fun h => absurd h (by simp), fun h => absurd (h _ htrue) (by simp)⟩
  · next htrue =>
      split
      · next hnone => exact ⟨fun h => absurd h (by simp), fun h => absurd (h _ hnone) (by simp)⟩
      · next hnone =>
          refine ⟨fun _ answer hmem => ?_, fun _ => rfl⟩
          match answer with
          | none => exact absurd hmem hnone
          | some true => exact absurd hmem htrue
          | some false => rfl

theorem contains?_singleton (i : Interval) (v : Literal) :
    (⟨[i]⟩ : IntervalUnion).contains? v = i.contains? v := by
  match h : i.contains? v with
  | some true => simp [contains?, h]
  | some false => simp [contains?, h]
  | none => simp [contains?, h]

end IntervalUnion

/-! ### Literals that do not equal themselves -/

namespace Literal

variable {l : Literal}

theorem ne_null_of_ne_self (h : l.compare? l ≠ some .eq) : l ≠ null := by
  intro hnull
  rw [hnull] at h
  exact h rfl

/-- What does not equal itself is a double that is no number, and only null can be compared with
it. -/
theorem compare?_eq_none_of_ne_self (h : l.compare? l ≠ some .eq) (hv : v ≠ null) :
    v.compare? l = none := by
  cases l with
  | null => exact absurd rfl h
  | boolean p => exact absurd (PeerOf.compare?_self (.inr (.boolean (q := p)))) h
  | int i => exact absurd (PeerOf.compare?_self (.inr (.int (j := i)))) h
  | string t => exact absurd (PeerOf.compare?_self (.inr (.string (t := t)))) h
  | float d =>
      have hnan : d.isNaN = true := by
        by_contra hnumber
        have hnumber := Bool.eq_false_iff.mpr hnumber
        exact h (PeerOf.compare?_self (.inr (.float hnumber hnumber)))
      cases v with
      | null => exact absurd rfl hv
      | int i | float c => simp [compare?, Double.compare?, hnan]
      | _ => rfl

end Literal

/-- So no value is known to lie above it. -/
theorem Endpoint.not_admits_of_ne_self {l : Literal} {r : Role} {t : Strictness}
    (h : l.compare? l ≠ some .eq) : ¬ (Endpoint.finite r t (.literal l)).Admits .lower v := by
  intro hadmits
  by_cases hv : v = .null
  · subst hv
    exact RangeConstraint.not_admits_null_of_finite (Literal.ne_null_of_ne_self h) hadmits
  · obtain ⟨x, hx, -⟩ := Endpoint.admits_finite_iff.mp hadmits
    exact absurd (hx.symm.trans (Literal.compare?_eq_none_of_ne_self h hv)) (by simp)

/-! ### What binding makes of a range -/

namespace RangeConstraint

variable {c : RangeConstraint}

/-- Both ends stand at one parameter, and it is bound to what does not equal itself. -/
def BoundToNoNumber (c : RangeConstraint) (s : Nat → Literal) : Prop :=
  ∃ i, c.interval.lower.parameter? = some i ∧ c.interval.upper.parameter? = some i ∧
    (s i).compare? (s i) ≠ some .eq

theorem bind_eq_self (h : c.interval.bind s = c.interval) : c.bind s = c := by
  rw [bind, h]

theorem neverTrue_bind (h : c.NeverTrue) : (c.bind s).NeverTrue := by
  refine ⟨h.1, ?_⟩
  have hnull := h.2
  rw [Bool.or_eq_true] at hnull ⊢
  exact hnull.imp Endpoint.isNull_bind Endpoint.isNull_bind

/-- Coordinates that are known to be out of order stay so. -/
theorem isInverted_bind (h : c.isInverted = true) :
    (c.bind s).isInverted = true ∨ c.BoundToNoNumber s := by
  obtain ⟨domain, semantics, lower, upper⟩ := c
  match lower, upper with
  | .finite _ _ (.literal _), .finite _ _ (.literal _) => exact .inl h
  | .finite _ strictness (.parameter i), .finite _ strictness' (.parameter j) =>
      simp only [isInverted, Endpoint.coordinate?] at h
      have hopen : ∃ x, (Coordinate.parameter i).compare? (.parameter j) = some x := by
        cases hx : (Coordinate.parameter i).compare? (.parameter j) with
        | none => simp [hx] at h
        | some x => exact ⟨x, rfl⟩
      obtain ⟨x, hx⟩ := hopen
      obtain ⟨rfl, rfl⟩ := Coordinate.eq_of_compare?_parameter hx
      by_cases hself : (s i).compare? (s i) = some .eq
      · left
        have hbound : ((Coordinate.parameter i).bind s).compare? ((Coordinate.parameter i).bind s)
            = some .eq := hself
        simp only [hx] at h
        simp only [isInverted, bind, Interval.bind, Endpoint.bind, Endpoint.coordinate?, hbound]
        exact h
      · exact .inr ⟨i, rfl, rfl, hself⟩

/-- Three-valued logic that meets no null coordinate finds none at the lower end. -/
theorem isNull_lower_eq_false (hsem : c.semantics = .matchesNothing) (hnever : ¬ c.NeverTrue) :
    c.interval.lower.isNull = false := by
  by_contra hnull
  exact hnever ⟨hsem, by rw [Bool.eq_true_of_not_eq_false hnull, Bool.true_or]⟩

/-- What is left of a range is its interval, or all of that but null. -/
theorem resolved_eq (hsem : c.semantics ≠ .matchesAnything) (hnever : ¬ c.NeverTrue) :
    c.resolved = c.interval ∨
      c.interval.lower.isFinite = false ∧ c.resolved = ⟨.aboveNull, c.interval.upper⟩ := by
  cases hcase : c.semantics with
  | matchesAnything => exact absurd hcase hsem
  | matchesNull =>
      left
      simp only [resolved, hcase]
  | matchesNothing =>
      simp only [resolved, hcase, isNull_lower_eq_false hcase hnever, Bool.or_false]
      split
      · next hreaches =>
          simp only [Bool.and_eq_true, Bool.not_eq_true'] at hreaches
          exact .inr ⟨hreaches.2, rfl⟩
      · exact .inl rfl

/-- Where there is nothing to bind in what is left of a range, there is nothing to bind at all. -/
theorem interval_bind_eq (hsem : c.semantics ≠ .matchesAnything) (hnever : ¬ c.NeverTrue)
    (h : c.resolved.bind s = c.resolved) : c.interval.bind s = c.interval := by
  rcases resolved_eq hsem hnever with hres | ⟨hfree, hres⟩
  · rwa [hres] at h
  · rw [hres, Interval.bind_eq_self_iff] at h
    exact Interval.bind_eq_self_iff.mpr ⟨Endpoint.bind_eq_of_isFinite hfree, h.2⟩

/-- Resolving commutes with binding, unless a null coordinate is revealed. -/
theorem resolved_bind (hsem : c.semantics ≠ .matchesAnything) (hnever : ¬ (c.bind s).NeverTrue) :
    (c.bind s).resolved = c.resolved.bind s := by
  cases hcase : c.semantics with
  | matchesAnything => exact absurd hcase hsem
  | matchesNull => simp only [resolved, bind, hcase]
  | matchesNothing =>
      have hlower := isNull_lower_eq_false hcase fun h => hnever (neverTrue_bind h)
      have hbound : (c.interval.lower.bind s).isNull = false :=
        isNull_lower_eq_false (c := c.bind s) hcase hnever
      simp only [resolved, bind, hcase, Interval.lower_bind, Interval.upper_bind,
        Endpoint.isFinite_bind, hlower, hbound]
      split
      · rfl
      · rfl

/-- What binding makes of an evaluation: nothing is left, or what was left is bound as well. A range
that was known to be empty stays so, unless its two ends stand at what does not equal itself. -/
theorem evaluate_bind_cases (hsem : c.semantics ≠ .matchesAnything) (s : Nat → Literal) :
    (c.bind s).evaluate = ⟨[]⟩ ∨
      (c.evaluate = ⟨[c.resolved]⟩ ∧ (c.bind s).evaluate = ⟨[c.resolved.bind s]⟩) ∨
      (c.evaluate = ⟨[]⟩ ∧ c.BoundToNoNumber s ∧
        (c.bind s).evaluate = ⟨[c.interval.bind s]⟩) := by
  rcases (c.bind s).evaluate_cases with ⟨hnil, -⟩ | ⟨hbound, hempty, hnever, hinverted⟩
  · exact .inl hnil
  rw [resolved_bind hsem hnever] at hbound
  have hnever' : ¬ c.NeverTrue := fun h => hnever (neverTrue_bind h)
  rcases c.evaluate_cases with ⟨heval, hreason⟩ | ⟨heval, -⟩
  · -- Of the reasons for an empty evaluation only coordinates out of order may go away.
    have hempty' : c.interval.isEmpty = false := (Interval.isEmpty_bind _).symm.trans hempty
    have hinverted' : c.isInverted = true := by
      rcases hreason with h | h | h
      · exact absurd (h.symm.trans hempty') (by decide)
      · exact absurd h hnever'
      · exact h
    have hno : c.BoundToNoNumber s :=
      (isInverted_bind hinverted').resolve_left fun h => absurd (h.symm.trans hinverted) (by decide)
    rcases resolved_eq hsem hnever' with hres | ⟨hfree, -⟩
    · exact .inr (.inr ⟨heval, hno, hres ▸ hbound⟩)
    · obtain ⟨i, hparameter, -⟩ := hno
      exact absurd ((Endpoint.isFinite_of_parameter? hparameter).symm.trans hfree) (by decide)
  · exact .inr (.inl ⟨heval, hbound⟩)

/-- The lower end of a range that is bound to no number. -/
theorem BoundToNoNumber.lower (h : c.BoundToNoNumber s) :
    ∃ r t l, (c.interval.bind s).lower = .finite r t (.literal l) ∧ l.compare? l ≠ some .eq := by
  obtain ⟨i, hlower, -, hself⟩ := h
  match hend : c.interval.lower with
  | .finite r t (.parameter j) =>
      rw [hend] at hlower
      obtain rfl : j = i := Option.some.inj hlower
      exact ⟨r, t, s j, by rw [Interval.lower_bind, hend]; rfl, hself⟩
  | .negInfinity | .posInfinity | .finite _ _ (.literal _) =>
      simp [hend, Endpoint.parameter?] at hlower

/-! ### The evaluation -/

/-- A value that is surely in the evaluation was found there without any parameter. -/
theorem bind_eq_of_evaluate (hsem : c.semantics ≠ .matchesAnything)
    (h : c.evaluate.contains? v = some true) : c.bind s = c := by
  rcases c.evaluate_cases with ⟨heval, -⟩ | ⟨heval, -, hnever, -⟩
  · rw [heval] at h
    exact absurd h (by simp)
  · rw [heval, IntervalUnion.contains?_singleton] at h
    exact bind_eq_self (interval_bind_eq hsem hnever (Interval.bind_eq_of_contains? h))

/-- A decided answer of the evaluation stays, unless the range is bound to no number. -/
theorem contains?_evaluate_bind (hsem : c.semantics ≠ .matchesAnything)
    (h : c.evaluate.contains? v = some b) :
    (c.bind s).evaluate.contains? v = some b ∨
      c.BoundToNoNumber s ∧ (c.bind s).evaluate.contains? v ≠ some (!b) := by
  cases b with
  | true =>
      left
      rw [bind_eq_of_evaluate hsem h, h]
  | false =>
      rcases evaluate_bind_cases hsem s with hbound | ⟨heval, hbound⟩ | ⟨-, hno, hbound⟩
      · left
        rw [hbound]
        rfl
      · left
        rw [heval, IntervalUnion.contains?_singleton] at h
        rw [hbound, IntervalUnion.contains?_singleton]
        exact Interval.contains?_bind h
      · refine .inr ⟨hno, ?_⟩
        rw [hbound, IntervalUnion.contains?_singleton]
        intro htrue
        obtain ⟨r, t, l, hlower, hself⟩ := hno.lower
        have hadmits := Interval.admits_lower_of_contains? htrue
        rw [hlower] at hadmits
        exact Endpoint.not_admits_of_ne_self hself hadmits

/-! ### The complement -/

/-- Where the part below an interval knows its answer, the lower end is no parameter. -/
theorem lower_bind_eq_of_mem {i j : Interval} (hj : j ∈ complementBelow i) (hv : v ≠ .null)
    (h : j.contains? v = some b) : i.lower.bind s = i.lower := by
  obtain ⟨lower, upper⟩ := i
  match lower with
  | .negInfinity | .posInfinity | .finite _ _ (.literal _) => rfl
  | .finite _ t (.parameter index) =>
      obtain rfl := List.mem_singleton.mp hj
      have hsame := Interval.upper_bind_eq_of_contains? (s := s) rfl
        (Endpoint.admits_aboveNull hv) h
      simp [Endpoint.bind, Coordinate.bind] at hsame

/-- Where the part above an interval knows its answer, the upper end is no parameter. -/
theorem upper_bind_eq_of_mem {i j : Interval} (hj : j ∈ complementAbove i)
    (h : j.contains? v = some b) : i.upper.bind s = i.upper := by
  obtain ⟨lower, upper⟩ := i
  match upper with
  | .negInfinity | .posInfinity | .finite _ _ (.literal _) => rfl
  | .finite _ t (.parameter index) =>
      obtain rfl := List.mem_singleton.mp hj
      have hsame := Interval.lower_bind_eq_of_contains? (s := s) rfl h
      simp [Endpoint.bind, Coordinate.bind] at hsame

/-- A part that surely has a value is a part of the complement after binding as well. -/
theorem mem_complement_bind {i j : Interval} (hj : j ∈ complementBelow i ++ complementAbove i)
    (hv : v ≠ .null) (h : j.contains? v = some b) :
    j ∈ complementBelow (i.bind s) ++ complementAbove (i.bind s) := by
  rw [List.mem_append] at hj ⊢
  rcases hj with hj | hj
  · left
    rwa [complementBelow, Interval.lower_bind, lower_bind_eq_of_mem hj hv h]
  · right
    rwa [complementAbove, Interval.upper_bind, upper_bind_eq_of_mem hj h]

/-- Where all parts know their answer, there is nothing to bind. -/
theorem bind_eq_of_parts {i : Interval} (hv : v ≠ .null)
    (h : ∀ j ∈ complementBelow i ++ complementAbove i, j.contains? v = some b) : i.bind s = i := by
  obtain ⟨lower, upper⟩ := i
  refine Interval.bind_eq_self_iff.mpr ⟨?_, ?_⟩
  · match lower with
    | .negInfinity | .posInfinity | .finite _ _ (.literal _) => rfl
    | .finite _ _ (.parameter _) =>
        have hpart := h _ (List.mem_append_left _ (List.mem_singleton_self _))
        exact lower_bind_eq_of_mem (List.mem_singleton_self _) hv hpart
  · match upper with
    | .negInfinity | .posInfinity | .finite _ _ (.literal _) => rfl
    | .finite _ _ (.parameter _) =>
        have hpart := h _ (List.mem_append_right _ (List.mem_singleton_self _))
        exact upper_bind_eq_of_mem (List.mem_singleton_self _) hpart

/-- Everything is in the complement of a range that is known to be empty. -/
theorem complement_of_evaluate_nil (h : c.evaluate = ⟨[]⟩) : c.complement = ⟨[.unconstrained]⟩ := by
  simp only [complement, h, List.head?_nil]

/-- A value that is surely not in the complement was ruled out there without any parameter. -/
theorem bind_eq_of_complement (hsem : c.semantics ≠ .matchesAnything) (hv : v ≠ .null)
    (h : c.complement.contains? v = some false) : c.bind s = c := by
  rcases c.evaluate_cases with ⟨heval, -⟩ | ⟨heval, -, hnever, -⟩
  · rw [complement_of_evaluate_nil heval] at h
    exact absurd h (by simp [IntervalUnion.contains?_singleton, Interval.contains?,
      Interval.unconstrained, Interval.isEmpty, Endpoint.role, Endpoint.above?, Endpoint.below?])
  · rw [complement_of_evaluate_eq heval, IntervalUnion.contains?_eq_false_iff] at h
    exact bind_eq_self (interval_bind_eq hsem hnever (bind_eq_of_parts hv h))

/-- A decided answer of the complement about a value other than null stays, unless the range is
bound to no number. -/
theorem contains?_complement_bind (hsem : c.semantics ≠ .matchesAnything) (hv : v ≠ .null)
    (h : c.complement.contains? v = some b) :
    (c.bind s).complement.contains? v = some b ∨
      c.BoundToNoNumber s ∧ (c.bind s).complement.contains? v ≠ some (!b) := by
  cases b with
  | false =>
      left
      rw [bind_eq_of_complement hsem hv h, h]
  | true =>
      rcases evaluate_bind_cases hsem s with hbound | ⟨heval, hbound⟩ | ⟨-, hno, hbound⟩
      · left
        rw [complement_of_evaluate_nil hbound]
        rfl
      · left
        rw [complement_of_evaluate_eq heval, IntervalUnion.contains?_eq_true_iff] at h
        rw [complement_of_evaluate_eq hbound, IntervalUnion.contains?_eq_true_iff]
        obtain ⟨j, hj, hcontains⟩ := h
        exact ⟨j, mem_complement_bind hj hv hcontains, hcontains⟩
      · refine .inr ⟨hno, ?_⟩
        obtain ⟨r, t, l, hlower, hself⟩ := hno.lower
        rw [complement_of_evaluate_eq hbound, ne_eq, Bool.not_true,
          IntervalUnion.contains?_eq_false_iff]
        intro hparts
        -- The part below does not know on which side of its upper end the value lies.
        have hpart := complementBelow_eq hlower (Literal.ne_null_of_ne_self hself)
        have hfalse := hparts _ (List.mem_append_left _ (hpart ▸ List.mem_singleton_self _))
        rcases Interval.answers_of_contains? rfl hfalse with ⟨habove, -⟩ | ⟨-, hupper⟩
        · exact absurd ((Endpoint.admits_aboveNull hv).symm.trans habove) (by simp)
        · rw [Endpoint.admits?_finite, Literal.compare?_eq_none_of_ne_self hself hv] at hupper
          exact absurd hupper (by simp)

/-! ### Decided answers -/

theorem mem_parameters_of_lower {i : Nat} (h : c.interval.lower.parameter? = some i) :
    i ∈ c.parameters := by
  unfold parameters
  rw [h]
  cases c.interval.upper.parameter? with
  | none => exact List.mem_singleton_self i
  | some j =>
      simp only
      split
      · simp
      · split <;> simp

theorem not_boundToNoNumber (h : ∀ i ∈ c.parameters, (s i).compare? (s i) = some .eq) :
    ¬ c.BoundToNoNumber s := by
  intro hno
  obtain ⟨i, hlower, -, hself⟩ := hno
  exact hself (h i (mem_parameters_of_lower hlower))

/-- An answer that stays unless the range is bound to no number is not reversed, and stays if every
parameter equals itself. -/
theorem stays_of {answer : Option Bool}
    (h : answer = some b ∨ c.BoundToNoNumber s ∧ answer ≠ some (!b)) :
    answer ≠ some (!b) ∧
      ((∀ i ∈ c.parameters, (s i).compare? (s i) = some .eq) → answer = some b) := by
  rcases h with rfl | ⟨hno, hopen⟩
  · exact ⟨by simp, fun _ => rfl⟩
  · exact ⟨hopen, fun hs => absurd hno (not_boundToNoNumber hs)⟩

end RangeConstraint

/-- **Answers that are decided before binding stay valid.** Whatever changes led to a range, with
literals or parameters for coordinates, and whatever literals the parameters are bound to: an answer
of the evaluation, and of the complement for a value other than null, is not reversed by binding. If
moreover no parameter of the range is bound to a double that is no number, the answer stays the
same. -/
theorem RangeBuilder.decided_answers_stay (domain : Domain) (semantics : NullSemantics)
    (rounds : Bool) (steps : List RangeStep) (s : Nat → Literal) :
    let c := ((new domain semantics rounds).run steps).build
    c.semantics ≠ .matchesAnything → ∀ (v : Literal) (b : Bool),
      (c.evaluate.contains? v = some b →
        (c.bind s).evaluate.contains? v ≠ some (!b) ∧
          ((∀ i ∈ c.parameters, (s i).compare? (s i) = some .eq) →
            (c.bind s).evaluate.contains? v = some b)) ∧
      (v ≠ .null → c.complement.contains? v = some b →
        (c.bind s).complement.contains? v ≠ some (!b) ∧
          ((∀ i ∈ c.parameters, (s i).compare? (s i) = some .eq) →
            (c.bind s).complement.contains? v = some b)) := by
  intro c hsem v b
  constructor
  · intro h
    exact RangeConstraint.stays_of (RangeConstraint.contains?_evaluate_bind hsem h)
  · intro hv h
    exact RangeConstraint.stays_of (RangeConstraint.contains?_complement_bind hsem hv h)

/-- The number 1 is below `[3, ?0]` before `?0` is known, and it is still so once `?0` is 7. Of the
number 5 it is only decided then that it is in the range. -/
theorem decided_answers_stay_fromThree :
    let c := ((RangeBuilder.new ⟨.int32, true⟩ .matchesNothing true).run
      [.lower (.literal (.int 3)) .closed, .upper (.parameter 0) .closed]).build
    let bound := c.bind fun _ => .int 7
    c.evaluate.contains? (.int 1) = some false ∧ c.complement.contains? (.int 1) = some true ∧
      bound.evaluate.contains? (.int 1) = some false ∧
      bound.complement.contains? (.int 1) = some true ∧
      c.evaluate.contains? (.int 5) = none ∧ bound.evaluate.contains? (.int 5) = some true ∧
      bound.complement.contains? (.int 5) = some false := by
  intro c bound
  have hevaluate : c.evaluate.contains? (.int 1) = some false := by decide
  have hcomplement : c.complement.contains? (.int 1) = some true := by decide
  have hstays := RangeBuilder.decided_answers_stay ⟨.int32, true⟩ .matchesNothing true
    [.lower (.literal (.int 3)) .closed, .upper (.parameter 0) .closed] (fun _ => .int 7)
    (by decide) (.int 1)
  exact ⟨hevaluate, hcomplement, ((hstays false).1 hevaluate).2 fun _ _ => by decide,
    ((hstays true).2 (by decide) hcomplement).2 fun _ _ => by decide, by decide, by decide,
    by decide⟩

/-- A double that is no number at both ends opens the answer up again. -/
example :
    let c : RangeConstraint := ⟨⟨.float64, true⟩, .matchesNothing,
      .finite .lower .opened (.parameter 0), .finite .upper .closed (.parameter 0)⟩
    c.evaluate.contains? (.int 1) = some false ∧
      (c.bind fun _ => .float ⟨0x7ff8000000000000⟩).evaluate.contains? (.int 1) = none := by
  decide +kernel

end QueryAnalysis
