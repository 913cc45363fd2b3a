import QueryAnalysis.Proofs.Range.Order
import QueryAnalysis.Range.Predicate

/-!
# What endpoints and intervals admit

`Endpoint.Admits` is what an endpoint says as a bound on one side, and `Interval.Admits` is the
conjunction of both sides. An interval whose endpoints stand on their sides contains exactly the
values that it admits (`Interval.contains?_eq_true_iff`).

The order of endpoints and what they admit go together, as long as the value may be compared with
the coordinates: an endpoint that is at least as tight as another admits no more
(`Endpoint.Admits.of_compare?`), the tighter of two admits what both admit (`admits_tighter?`), and
endpoints that have crossed admit nothing (`Interval.not_admits_of_crossed`).
-/

namespace QueryAnalysis

variable {S : Literal → Prop} {v : Literal} {role : Role}

theorem Coordinate.compare?_swap (a b : Coordinate) :
    b.compare? a = (a.compare? b).map Ordering.swap := by
  cases a with
  | literal c =>
      cases b with
      | literal d => exact Literal.compare?_swap c d
      | parameter j => rfl
  | parameter i =>
      cases b with
      | literal d => rfl
      | parameter j =>
          simp only [compare?, eq_comm (a := j)]
          split <;> rfl

theorem Coordinate.eq_null_of_isNull {c : Coordinate} (h : c.isNull = true) : c = .literal .null := by
  cases c with
  | parameter index => exact absurd h Bool.false_ne_true
  | literal l =>
      cases l with
      | null => rfl
      | _ => exact absurd h Bool.false_ne_true

/-! ### Strictness -/

namespace Strictness

/-- How the place of an admitted value compares with the coordinate. -/
def Allows (role : Role) (x : Ordering) : Strictness → Prop
  | opened => x = role.inward
  | closed => x ≠ role.outward

instance (role : Role) (x : Ordering) (s : Strictness) : Decidable (s.Allows role x) := by
  unfold Allows
  cases s <;> infer_instance

theorem Allows.ne_outward {x : Ordering} {s : Strictness} (h : s.Allows role x) :
    x ≠ role.outward := by
  cases s with
  | opened => exact h ▸ role.inward_ne_outward
  | closed => exact h

/-- How endpoints of one side compare at the same coordinate: the open one is tighter. -/
def along (role : Role) : Strictness → Strictness → Ordering
  | opened, closed => role.inward
  | closed, opened => role.outward
  | _, _ => .eq

/-- What an endpoint allows, one on the same side that is no tighter allows too: `z` is the place of
the value, and `y` how the coordinates compare. -/
theorem Allows.then {z y : Ordering} {s s' : Strictness} (h : s.Allows role z)
    (hy : y ≠ role.outward) (hloose : y.then (s.along role s') ≠ role.outward) :
    s'.Allows role (z.then y) := by
  rcases role.ordering_cases y with rfl | rfl | rfl
  · -- The value lies strictly inside the looser coordinate.
    have hinward : z.then role.inward = role.inward := by
      rcases role.ordering_cases z with rfl | rfl | rfl
      · cases role <;> rfl
      · rfl
      · exact absurd rfl h.ne_outward
    rw [hinward]
    cases s' with
    | opened => rfl
    | closed => exact role.inward_ne_outward
  · -- The coordinates are equal, so the strictness decides.
    have hplace : z.then .eq = z := by cases z <;> rfl
    rw [hplace]
    rw [Ordering.eq_then] at hloose
    cases s' with
    | closed => exact h.ne_outward
    | opened =>
        cases s with
        | opened => exact h
        | closed => exact absurd rfl hloose
  · exact absurd rfl hy

/-- How a lower endpoint compares with an upper one at the same coordinate. -/
def across : Strictness → Strictness → Ordering
  | closed, closed => .eq
  | _, _ => .gt

end Strictness

/-! ### Endpoints -/

namespace Endpoint

/-- The infinity that bounds nothing on a side. -/
def free : Role → Endpoint
  | .lower => negInfinity
  | .upper => posInfinity

/-- The infinity that leaves nothing on a side. -/
def blocked (role : Role) : Endpoint :=
  free role.opposite

/-- Whether a value satisfies the endpoint as a bound on a side. -/
def admits? (e : Endpoint) (role : Role) (v : Literal) : Option Bool :=
  match role with
  | .lower => e.above? v
  | .upper => e.below? v

/-- A value is known to satisfy the endpoint as a bound on a side. -/
def Admits (e : Endpoint) (role : Role) (v : Literal) : Prop :=
  e.admits? role v = some true

instance (e : Endpoint) (role : Role) (v : Literal) : Decidable (e.Admits role v) :=
  inferInstanceAs (Decidable (e.admits? role v = some true))

/-- The endpoint bounds from a side, at a literal of a set; the infinities do so from either. -/
def On (role : Role) (S : Literal → Prop) : Endpoint → Prop
  | finite r _ (.literal c) => r = role ∧ S c
  | finite _ _ (.parameter _) => False
  | _ => True

theorem On.mono {S' : Literal → Prop} (hsub : ∀ c, S c → S' c) {e : Endpoint} (h : e.On role S) :
    e.On role S' := by
  match e, h with
  | negInfinity, _ | posInfinity, _ => trivial
  | finite _ _ (.literal c), ⟨hrole, hc⟩ => exact ⟨hrole, hsub c hc⟩

theorem On.isNull_eq_false {e : Endpoint} (h : e.On role (· ≠ .null)) : e.isNull = false := by
  match e, h with
  | negInfinity, _ | posInfinity, _ => rfl
  | finite _ _ (.literal c), ⟨_, hc⟩ =>
      cases c with
      | null => exact absurd rfl hc
      | _ => rfl

theorem on_free (side : Role) : (free side).On role S := by
  cases side <;> trivial

/-- An endpoint on a side is one of the infinities or stands at a literal. -/
theorem On.cases {e : Endpoint} (h : e.On role S) :
    e = free role ∨ e = blocked role ∨ ∃ s c, e = finite role s (.literal c) ∧ S c := by
  match e, h with
  | negInfinity, _ => cases role <;> simp [free, blocked, Role.opposite]
  | posInfinity, _ => cases role <;> simp [free, blocked, Role.opposite]
  | finite _ s (.literal c), ⟨rfl, hc⟩ => exact .inr (.inr ⟨s, c, rfl, hc⟩)

/-- A finite endpoint on a side stands at a literal. -/
theorem On.exists_literal {r : Role} {s : Strictness} {c : Coordinate}
    (h : (finite r s c).On role S) : ∃ a, c = .literal a ∧ r = role ∧ S a := by
  cases c with
  | literal a => exact ⟨a, rfl, h.1, h.2⟩
  | parameter index => exact h.elim

@[simp] theorem admits_free (role : Role) (v : Literal) : (free role).Admits role v := by
  cases role <;> rfl

@[simp] theorem not_admits_blocked (role : Role) (v : Literal) : ¬ (blocked role).Admits role v := by
  cases role <;> simp [Admits, admits?, blocked, free, Role.opposite, above?, below?]

theorem admits?_finite (r : Role) (s : Strictness) (c v : Literal) (role : Role) :
    (finite r s (.literal c)).admits? role v = (v.compare? c).map fun x =>
      match s with
      | .opened => x == role.inward
      | .closed => x != role.outward := by
  cases role <;> cases s <;> rfl

theorem admits_finite_iff {r : Role} {s : Strictness} {c : Literal} :
    (finite r s (.literal c)).Admits role v ↔
      ∃ x, v.compare? c = some x ∧ s.Allows role x := by
  rw [Admits, admits?_finite, Option.map_eq_some_iff]
  cases s <;> simp [Strictness.Allows]

/-! ### Tighter endpoints -/

theorem compare_offset_along (role : Role) (s s' : Strictness) (c c' : Coordinate) :
    compare (finite role s c).offset (finite role s' c').offset = s.along role s' := by
  cases role <;> cases s <;> cases s' <;> rfl

theorem compare_offset_across (s s' : Strictness) (c c' : Coordinate) :
    compare (finite .lower s c).offset (finite .upper s' c').offset = s.across s' := by
  cases s <;> cases s' <;> rfl

theorem compare?_swap (e e' : Endpoint) : e'.compare? e = (e.compare? e').map Ordering.swap := by
  cases e with
  | negInfinity => cases e' <;> rfl
  | posInfinity => cases e' <;> rfl
  | finite r s c =>
      cases e' with
      | negInfinity | posInfinity => rfl
      | finite r' s' c' =>
          simp only [compare?, Coordinate.compare?_swap c c', Option.map_map]
          congr 1
          funext order
          rw [Function.comp_apply, Function.comp_apply, Ordering.swap_then,
            ← Std.OrientedOrd.eq_swap]

/-- Every other endpoint is tighter than the one that bounds nothing. -/
theorem compare?_free {e : Endpoint} (h : e ≠ free role) :
    e.compare? (free role) = some role.inward := by
  cases role <;> cases e <;> first | rfl | exact absurd rfl h

theorem free_compare? {e : Endpoint} (h : e ≠ free role) :
    (free role).compare? e = some role.outward := by
  rw [compare?_swap, compare?_free h, Option.map_some, Role.swap_inward]

/-- No other endpoint is as tight as the one that leaves nothing. -/
theorem compare?_blocked {e : Endpoint} (h : e ≠ blocked role) :
    e.compare? (blocked role) = some role.outward := by
  cases role <;> cases e <;> first | rfl | exact absurd rfl h

/-- An endpoint that is at least as tight as another admits no more. -/
theorem Admits.of_compare? (hv : v.CoherentAt S) {e e' : Endpoint} (he : e.On role S)
    (he' : e'.On role S) {x : Ordering} (hcmp : e.compare? e' = some x) (hx : x ≠ role.outward)
    (h : e.Admits role v) : e'.Admits role v := by
  rcases he'.cases with rfl | rfl | ⟨s', c', rfl, hc'⟩
  · exact admits_free role v
  · by_cases hblocked : e = blocked role
    · exact hblocked ▸ h
    · rw [compare?_blocked hblocked] at hcmp
      exact absurd (Option.some.inj hcmp).symm hx
  · rcases he.cases with rfl | rfl | ⟨s, c, rfl, hc⟩
    · rw [free_compare? (by cases role <;> simp [free])] at hcmp
      exact absurd (Option.some.inj hcmp).symm hx
    · exact absurd h (not_admits_blocked role v)
    · obtain ⟨y, hy, rfl⟩ := Option.map_eq_some_iff.mp hcmp
      obtain ⟨z, hz, hallows⟩ := admits_finite_iff.mp h
      have hyo : y ≠ role.outward := by
        rintro rfl
        exact hx (by cases role <;> rfl)
      rw [compare_offset_along] at hx
      have hcompose := hv role hc hc' hz hy hallows.ne_outward hyo
      exact admits_finite_iff.mpr ⟨z.then y, hcompose, hallows.then hyo hx⟩

/-- The tighter of two endpoints is one of them. -/
theorem eq_or_eq_of_tighter? {current candidate e : Endpoint}
    (h : tighter? role.inward current candidate = some e) : e = candidate ∨ e = current := by
  obtain ⟨order, -, rfl⟩ := Option.map_eq_some_iff.mp h
  split
  · exact .inl rfl
  · exact .inr rfl

/-- The tighter of two endpoints admits what both admit. -/
theorem admits_tighter? (hv : v.CoherentAt S) {current candidate e : Endpoint}
    (hcurrent : current.On role S) (hcandidate : candidate.On role S)
    (h : tighter? role.inward current candidate = some e) :
    e.Admits role v ↔ current.Admits role v ∧ candidate.Admits role v := by
  obtain ⟨order, horder, rfl⟩ := Option.map_eq_some_iff.mp h
  split
  · next hwins =>
      have hloose : candidate.Admits role v → current.Admits role v :=
        Admits.of_compare? hv hcandidate hcurrent horder (hwins ▸ role.inward_ne_outward)
      exact ⟨fun hadmits => ⟨hloose hadmits, hadmits⟩, And.right⟩
  · next hwins =>
      have horder' : current.compare? candidate = some order.swap := by
        rw [compare?_swap, horder, Option.map_some]
      have hswap : order.swap ≠ role.outward := by
        intro hswap
        exact hwins (by rw [← Ordering.swap_swap (o := order), hswap, Role.swap_outward])
      have hloose : current.Admits role v → candidate.Admits role v :=
        Admits.of_compare? hv hcurrent hcandidate horder' hswap
      exact ⟨fun hadmits => ⟨hadmits, hloose hadmits⟩, And.left⟩

/-- The tighter of two endpoints bounds nothing only if neither does. -/
theorem eq_free_of_tighter? {current candidate : Endpoint}
    (h : tighter? role.inward current candidate = some (free role)) :
    current = free role ∧ candidate = free role := by
  obtain ⟨order, horder, hfree⟩ := Option.map_eq_some_iff.mp h
  by_cases hcandidate : candidate = free role
  · refine ⟨?_, hcandidate⟩
    by_contra hcurrent
    rw [hcandidate, free_compare? hcurrent] at horder
    rw [← Option.some.inj horder, if_neg role.inward_ne_outward.symm] at hfree
    exact hcurrent hfree
  · exfalso
    by_cases hcurrent : current = free role
    · rw [hcurrent, compare?_free hcandidate] at horder
      rw [← Option.some.inj horder, if_pos rfl] at hfree
      exact hcandidate hfree
    · split at hfree
      · exact hcandidate hfree
      · exact hcurrent hfree

end Endpoint

/-! ### Intervals -/

namespace Interval

/-- The endpoints stand on their sides, at literals of a set. -/
structure On (S : Literal → Prop) (i : Interval) : Prop where
  lower : i.lower.On .lower S
  upper : i.upper.On .upper S

/-- A value is known to satisfy both endpoints. -/
structure Admits (i : Interval) (v : Literal) : Prop where
  lower : i.lower.Admits .lower v
  upper : i.upper.Admits .upper v

instance (i : Interval) (v : Literal) : Decidable (i.Admits v) :=
  decidable_of_iff (i.lower.Admits .lower v ∧ i.upper.Admits .upper v)
    ⟨fun h => ⟨h.1, h.2⟩, fun h => ⟨h.1, h.2⟩⟩

theorem On.mono {S' : Literal → Prop} (hsub : ∀ c, S c → S' c) {i : Interval} (h : i.On S) :
    i.On S' :=
  ⟨h.lower.mono hsub, h.upper.mono hsub⟩

theorem on_unconstrained : unconstrained.On S :=
  ⟨trivial, trivial⟩

theorem admits_unconstrained (v : Literal) : unconstrained.Admits v :=
  ⟨rfl, rfl⟩

theorem admits_lower_alone_iff {e : Endpoint} : Admits ⟨e, .posInfinity⟩ v ↔ e.Admits .lower v :=
  ⟨fun h => h.lower, fun h => ⟨h, Endpoint.admits_free .upper v⟩⟩

theorem admits_upper_alone_iff {e : Endpoint} : Admits ⟨.negInfinity, e⟩ v ↔ e.Admits .upper v :=
  ⟨fun h => h.upper, fun h => ⟨Endpoint.admits_free .lower v, h⟩⟩

/-- An interval on its sides is recognised as empty just if an infinity leaves nothing. -/
theorem On.isEmpty_iff {i : Interval} (h : i.On S) :
    i.isEmpty = true ↔ i.lower = Endpoint.blocked .lower ∨ i.upper = Endpoint.blocked .upper := by
  obtain ⟨lower, upper⟩ := i
  rcases h.lower.cases with rfl | rfl | ⟨s, c, rfl, -⟩ <;>
    rcases h.upper.cases with rfl | rfl | ⟨s', c', rfl, -⟩ <;>
    simp [isEmpty, Endpoint.blocked, Endpoint.free, Role.opposite, Endpoint.role]

theorem not_admits_of_isEmpty {i : Interval} (hi : i.On S) (h : i.isEmpty = true) : ¬ i.Admits v := by
  intro hadmits
  rcases hi.isEmpty_iff.mp h with hlower | hupper
  · exact Endpoint.not_admits_blocked .lower v (hlower ▸ hadmits.lower)
  · exact Endpoint.not_admits_blocked .upper v (hupper ▸ hadmits.upper)

/-- A value that an interval contains satisfies its lower endpoint. -/
theorem admits_lower_of_contains? {i : Interval} (h : i.contains? v = some true) :
    i.lower.Admits .lower v := by
  unfold contains? at h
  split at h
  · exact absurd h (by simp)
  · split at h
    · exact absurd h (by simp)
    · exact absurd h (by simp)
    · next hlower => exact hlower

/-- An interval on its sides contains what it admits. -/
theorem contains?_eq_true_iff {i : Interval} (hi : i.On S) :
    i.contains? v = some true ↔ i.Admits v := by
  unfold contains?
  split
  · next hempty => simpa using not_admits_of_isEmpty hi hempty
  · constructor
    · intro h
      split at h
      · exact absurd h (by simp)
      · exact absurd h (by simp)
      · next hlower => exact ⟨hlower, h⟩
    · intro h
      have hlower : i.lower.above? v = some true := h.lower
      rw [hlower]
      exact h.upper

/-- Endpoints that have crossed admit nothing. -/
theorem not_admits_of_crossed (hv : v.CoherentAt S) {i : Interval} (hi : i.On S)
    (h : i.lower.compare? i.upper = some .gt) : ¬ i.Admits v := by
  intro hadmits
  obtain ⟨lower, upper⟩ := i
  rcases hi.lower.cases with rfl | rfl | ⟨s, c, rfl, hc⟩
  · cases upper <;> simp [Endpoint.free, Endpoint.compare?] at h
  · exact Endpoint.not_admits_blocked .lower v hadmits.lower
  rcases hi.upper.cases with rfl | rfl | ⟨s', c', rfl, hc'⟩
  · simp [Endpoint.free, Endpoint.compare?] at h
  · exact Endpoint.not_admits_blocked .upper v hadmits.upper
  obtain ⟨y, hy, hthen⟩ := Option.map_eq_some_iff.mp h
  rw [Endpoint.compare_offset_across] at hthen
  obtain ⟨z, hz, hallows⟩ := Endpoint.admits_finite_iff.mp hadmits.lower
  obtain ⟨z', hz', hallows'⟩ := Endpoint.admits_finite_iff.mp hadmits.upper
  have hyo : y ≠ .lt := by
    rintro rfl
    exact (show Ordering.lt ≠ .gt by decide) hthen
  -- From the value down to the lower coordinate and on to the upper one.
  have hcompose := hv .lower hc hc' hz hy hallows.ne_outward hyo
  obtain rfl : z' = z.then y := Option.some.inj (hz'.symm.trans hcompose)
  cases z <;> cases y <;> cases s <;> cases s' <;>
    simp_all [Strictness.Allows, Strictness.across, Role.inward, Role.outward, Ordering.then]

/-- Between closed endpoints at one literal lies what equals it. -/
theorem admits_closed_self_iff {a : Literal} :
    Admits ⟨.finite .lower .closed (.literal a), .finite .upper .closed (.literal a)⟩ v ↔
      v.compare? a = some .eq := by
  constructor
  · intro h
    obtain ⟨x, hx, hlower⟩ := Endpoint.admits_finite_iff.mp h.lower
    obtain ⟨y, hy, hupper⟩ := Endpoint.admits_finite_iff.mp h.upper
    obtain rfl := Option.some.inj (hx.symm.trans hy)
    cases x with
    | lt => exact absurd rfl hlower
    | eq => exact hx
    | gt => exact absurd rfl hupper
  · intro h
    exact ⟨Endpoint.admits_finite_iff.mpr ⟨.eq, h, by decide⟩,
      Endpoint.admits_finite_iff.mpr ⟨.eq, h, by decide⟩⟩

/-- Between closed endpoints at the same place lies what equals the lower coordinate. -/
theorem admits_closed_iff (hv : v.CoherentAt S) {a b : Literal} (ha : S a) (hb : S b)
    (hsame : a.compare? b = some .eq) :
    Admits ⟨.finite .lower .closed (.literal a), .finite .upper .closed (.literal b)⟩ v ↔
      v.compare? a = some .eq := by
  have hupper : ∀ {x}, v.compare? a = some x → x ≠ .lt → v.compare? b = some x := by
    intro x hx hlt
    rw [hv .lower ha hb hx hsame hlt (by decide)]
    cases x <;> rfl
  rw [← admits_closed_self_iff]
  constructor
  · intro h
    obtain ⟨x, hx, hlower⟩ := Endpoint.admits_finite_iff.mp h.lower
    obtain ⟨y, hy, hallows⟩ := Endpoint.admits_finite_iff.mp h.upper
    obtain rfl := Option.some.inj ((hupper hx hlower).symm.trans hy)
    exact ⟨h.lower, Endpoint.admits_finite_iff.mpr ⟨x, hx, hallows⟩⟩
  · intro h
    obtain ⟨x, hx, hallows⟩ := Endpoint.admits_finite_iff.mp h.upper
    obtain ⟨y, hy, hlower⟩ := Endpoint.admits_finite_iff.mp h.lower
    obtain rfl := Option.some.inj (hx.symm.trans hy)
    exact ⟨h.lower, Endpoint.admits_finite_iff.mpr ⟨x, hupper hx hlower, hallows⟩⟩

end Interval

end QueryAnalysis
