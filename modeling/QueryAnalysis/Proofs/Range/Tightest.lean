import QueryAnalysis.Proofs.Range.EndpointOrder
import QueryAnalysis.Proofs.Range.Narrowing
import QueryAnalysis.Proofs.Range.Truth

/-!
# The order of narrowing does not matter

Narrowing goes from term to term and keeps the tighter of two endpoints on each side. Where the
coordinates stand in a row (`Literal.InRow`), to be at least as tight as another endpoint
(`Endpoint.AsTight`) is a total order, in which the endpoint that is kept is the greatest one. So it is
there whatever the endpoints are, and it depends on which endpoints there are, not on their order or on
how often each of them comes (`Endpoint.tightest?_congr`). The range of several terms depends on the set
of the terms alone (`RangePolicy.constraint?_congr`).
-/

namespace QueryAnalysis

variable {S : Literal → Prop} {role : Role}

/-! ### Literals in a row -/

/-- There is one infinity of each sign. -/
theorem Double.eq_of_isInfinite {c d : Double} (hc : c.isInfinite = true) (hd : d.isInfinite = true)
    (hsign : c.isNegative = d.isNegative) : c = d := by
  have hc := of_decide_eq_true hc
  have hd := of_decide_eq_true hd
  have hboundc := c.bits.toNat_lt
  have hboundd := d.bits.toNat_lt
  rw [isNegative, isNegative, decide_eq_decide] at hsign
  simp only [magnitude, signWeight] at hc hd hsign
  have hbits : c.bits.toNat = d.bits.toNat := by
    omega
  cases c with
  | mk c => cases d with
    | mk d => exact congrArg Double.mk (UInt64.toNat_inj.mp hbits)

namespace Literal

/-- Any two literals of a set can be compared, steps between them compose, and no two are equal unless
they are the same. -/
structure InRow (S : Literal → Prop) : Prop where
  compare?_ne_none : ∀ {a b}, S a → S b → a.compare? b ≠ none
  coherentAt : ∀ {v}, S v → v.CoherentAt S
  eq_of_compare?_eq : ∀ {a b}, S a → S b → a.compare? b = some .eq → a = b

theorem InRow.compare?_self (hS : InRow S) {a : Literal} (ha : S a) : a.compare? a = some .eq := by
  obtain ⟨x, hx⟩ := Option.ne_none_iff_exists'.mp (hS.compare?_ne_none ha ha)
  have hswap := compare?_swap a a
  rw [hx, Option.map_some, Option.some.injEq] at hswap
  cases x with
  | eq => exact hx
  | lt | gt => exact absurd hswap (by decide)

/-- The peers of a value stand in a row, unless they are doubles, among which the zeros are equal. -/
theorem inRow_peerOf {v : Literal} (hv : ∀ d, v ≠ float d) : InRow (PeerOf v) where
  compare?_ne_none := PeerOf.compare?_ne_none
  coherentAt h := (uniform_peerOf v).coherentAt h
  eq_of_compare?_eq := by
    intro a b ha hb heq
    refine eq_of_compare?_eq_of_ne_null heq fun ha' hb' => ?_
    cases ha.resolve_left ha' with
    | boolean => cases hb.resolve_left hb' with
      | boolean => exact congrArg boolean (Std.LawfulEqCmp.eq_of_compare (Option.some.inj heq))
    | int => cases hb.resolve_left hb' with
      | int =>
          have htoInt := Std.LawfulEqCmp.eq_of_compare (Option.some.inj heq)
          exact congrArg int (Int64.toInt_inj.mp htoInt)
    | string => cases hb.resolve_left hb' with
      | string => exact congrArg string (Std.LawfulEqCmp.eq_of_compare (Option.some.inj heq))
    | float => exact absurd rfl (hv _)

/-- The integers and the infinities have places of their own. -/
theorem eq_of_integerPlace_eq {a b : Literal} (ha : a.isNumber = true) (hb : b.isNumber = true)
    (ha' : a.isFiniteFloat = false) (hb' : b.isFiniteFloat = false)
    (h : a.integerPlace = b.integerPlace) : a = b := by
  have hfar : ∀ (i : Int64) (d : Double), (int i).integerPlace ≠ (float d).integerPlace := by
    intro i d
    have hlow := i.le_toInt
    have hhigh := i.toInt_lt
    simp only [integerPlace]
    split <;> omega
  cases a with
  | int i =>
      cases b with
      | int j => exact congrArg int (Int64.toInt_inj.mp h)
      | float d => exact absurd h (hfar i d)
      | _ => exact absurd hb Bool.false_ne_true
  | float c =>
      cases b with
      | int j => exact absurd h.symm (hfar j c)
      | float d =>
          have hsign : c.isNegative = d.isNegative := by
            simp only [integerPlace] at h
            cases hc : c.isNegative <;> cases hd : d.isNegative <;> simp_all
          exact congrArg float (Double.eq_of_isInfinite (isInfinite_of_isNumber ha ha')
            (isInfinite_of_isNumber hb hb') hsign)
      | _ => exact absurd hb Bool.false_ne_true
  | _ => exact absurd ha Bool.false_ne_true

/-- Null, the integers and the two infinities. -/
def IsIntegral (c : Literal) : Prop :=
  c.isFiniteFloat = false ∧ (c = null ∨ c.isNumber = true)

/-- Null, the integers and the two infinities stand in a row. -/
theorem inRow_isIntegral : InRow IsIntegral where
  compare?_ne_none ha hb := by
    refine compare?_ne_none_of fun hanull hbnull => ?_
    rw [compare?_integerPlace (ha.2.resolve_left hanull) (hb.2.resolve_left hbnull) ha.1 hb.1]
    simp
  coherentAt h := Uniform.coherentAt (.inl fun c hc => hc.1) h
  eq_of_compare?_eq := by
    intro a b ha hb heq
    refine eq_of_compare?_eq_of_ne_null heq fun ha' hb' => ?_
    have hnumber := ha.2.resolve_left ha'
    have hnumber' := hb.2.resolve_left hb'
    rw [compare?_integerPlace hnumber hnumber' ha.1 hb.1] at heq
    have hplace := Std.LawfulEqCmp.eq_of_compare (Option.some.inj heq)
    exact eq_of_integerPlace_eq hnumber hnumber' ha.1 hb.1 hplace

end Literal

/-! ### Endpoints in a row -/

namespace Strictness

/-- Endpoints on one side that are as tight as each other have one strictness, at equal coordinates. -/
theorem along_antisymm {x : Ordering} {s s' : Strictness}
    (h : x.then (s.along role s') ≠ role.outward)
    (h' : x.swap.then (s'.along role s) ≠ role.outward) : x = .eq ∧ s = s' := by
  cases role <;> cases x <;> cases s <;> cases s' <;>
    first | exact ⟨rfl, rfl⟩ | exact absurd rfl h | exact absurd rfl h'

end Strictness

namespace Endpoint

/-- The endpoint can be compared with another one on its side and is at least as tight. -/
def AsTight (role : Role) (e e' : Endpoint) : Prop :=
  ∃ x, e.compare? e' = some x ∧ x ≠ role.outward

theorem asTight_free (role : Role) (e : Endpoint) : e.AsTight role (free role) := by
  by_cases h : e = free role
  · rw [h]
    cases role <;> exact ⟨.eq, rfl, by decide⟩
  · exact ⟨_, compare?_free h, role.inward_ne_outward⟩

theorem AsTight.eq_free {e : Endpoint} (h : (free role).AsTight role e) : e = free role := by
  by_contra hne
  obtain ⟨x, hx, hout⟩ := h
  exact hout (Option.some.inj (hx.symm.trans (free_compare? hne)))

theorem AsTight.eq_blocked {e : Endpoint} (h : e.AsTight role (blocked role)) : e = blocked role := by
  by_contra hne
  obtain ⟨x, hx, hout⟩ := h
  exact hout (Option.some.inj (hx.symm.trans (compare?_blocked hne)))

theorem asTight_finite_iff {s s' : Strictness} {a b : Literal} :
    (finite role s (.literal a)).AsTight role (finite role s' (.literal b)) ↔
      ∃ x, a.compare? b = some x ∧ x.then (s.along role s') ≠ role.outward := by
  simp only [AsTight, compare?, Coordinate.compare?, Option.map_eq_some_iff, compare_offset_along]
  constructor
  · intro h
    obtain ⟨_, ⟨x, hx, rfl⟩, hout⟩ := h
    exact ⟨x, hx, hout⟩
  · intro h
    obtain ⟨x, hx, hout⟩ := h
    exact ⟨_, ⟨x, hx, rfl⟩, hout⟩

section

variable (hS : Literal.InRow S) {e e' e'' : Endpoint}

include hS

theorem AsTight.refl (he : e.On role S) : e.AsTight role e :=
  ⟨.eq, compare?_self hS.compare?_self he, by cases role <;> decide⟩

/-- Steps from endpoint to endpoint that lose no tightness compose. -/
theorem AsTight.trans (he : e.On role S) (he' : e'.On role S) (he'' : e''.On role S)
    (h : e.AsTight role e') (h' : e'.AsTight role e'') : e.AsTight role e'' := by
  obtain ⟨x, hx, hout⟩ := h
  obtain ⟨y, hy, hout'⟩ := h'
  refine ⟨x.then y, compare?_then_inward hS.coherentAt role he he' he'' hx hy hout hout', ?_⟩
  cases x with
  | eq => exact hout'
  | lt => exact hout
  | gt => exact hout

/-- Endpoints that are as tight as each other are the same. -/
theorem AsTight.antisymm (he : e.On role S) (he' : e'.On role S) (h : e.AsTight role e')
    (h' : e'.AsTight role e) : e = e' := by
  rcases he.cases with rfl | rfl | ⟨s, a, rfl, ha⟩
  · exact h.eq_free.symm
  · exact h'.eq_blocked.symm
  rcases he'.cases with rfl | rfl | ⟨s', b, rfl, hb⟩
  · exact h'.eq_free
  · exact h.eq_blocked
  obtain ⟨x, hx, hout⟩ := asTight_finite_iff.mp h
  obtain ⟨y, hy, hout'⟩ := asTight_finite_iff.mp h'
  have hswap := Literal.compare?_swap a b
  rw [hx, hy, Option.map_some, Option.some.injEq] at hswap
  rw [hswap] at hout'
  obtain ⟨rfl, rfl⟩ := Strictness.along_antisymm hout hout'
  rw [hS.eq_of_compare?_eq ha hb hx]

/-! ### The tightest endpoint -/

/-- The endpoint that is kept is at least as tight as both. -/
theorem exists_tighter? (he : e.On role S) (he' : e'.On role S) :
    ∃ k, tighter? role.inward e e' = some k ∧ k.On role S ∧ k.AsTight role e ∧ k.AsTight role e' := by
  obtain ⟨x, hx, -⟩ := exists_compare? hS.compare?_ne_none he' he
  rw [tighter?, hx, Option.map_some]
  split
  · next hwins =>
      exact ⟨e', rfl, he', ⟨x, hx, hwins ▸ role.inward_ne_outward⟩, .refl hS he'⟩
  · next hwins =>
      refine ⟨e, rfl, he, .refl hS he, x.swap, by rw [compare?_swap, hx, Option.map_some], ?_⟩
      intro hswap
      exact hwins (by rw [← Ordering.swap_swap (o := x), hswap, Role.swap_outward])

/-- Going on from an endpoint, there is one in the end that is at least as tight as all. -/
theorem exists_foldlM_tighter? {endpoints : List Endpoint} (he : e.On role S)
    (hon : ∀ x ∈ endpoints, x.On role S) :
    ∃ k, endpoints.foldlM (tighter? role.inward) e = some k ∧ k.On role S ∧ k.AsTight role e ∧
      ∀ x ∈ endpoints, k.AsTight role x := by
  induction endpoints generalizing e with
  | nil => exact ⟨e, rfl, he, .refl hS he, List.forall_mem_nil _⟩
  | cons candidate endpoints ih =>
      rw [List.forall_mem_cons] at hon
      obtain ⟨next, hnext, hnexton, hcurrent, hcandidate⟩ := exists_tighter? hS he hon.1
      obtain ⟨k, hk, hkon, hkeeps, hrest⟩ := ih hnexton hon.2
      refine ⟨k, ?_, hkon, hkeeps.trans hS hkon hnexton he hcurrent, ?_⟩
      · rw [List.foldlM_cons, hnext]
        exact hk
      · rw [List.forall_mem_cons]
        exact ⟨hkeeps.trans hS hkon hnexton hon.1 hcandidate, hrest⟩

/-- **The tightest endpoint depends on the set of endpoints.** -/
theorem tightest?_congr {endpoints endpoints' : List Endpoint}
    (hon : ∀ x ∈ endpoints, x.On role S) (hsame : ∀ x, x ∈ endpoints' ↔ x ∈ endpoints) :
    tightest? role endpoints' = tightest? role endpoints := by
  have hon' : ∀ x ∈ endpoints', x.On role S := fun x hx => hon x ((hsame x).mp hx)
  obtain ⟨k, hk, hkon, -, hall⟩ := exists_foldlM_tighter? hS (on_free role) hon
  obtain ⟨k', hk', hkon', -, hall'⟩ := exists_foldlM_tighter? hS (on_free role) hon'
  -- Each of the two is among the endpoints that the other one is at least as tight as.
  have hle : k.AsTight role k' := by
    rcases mem_of_tightest? hk' with rfl | hmem
    · exact asTight_free role k
    · exact hall k' ((hsame k').mp hmem)
  have hle' : k'.AsTight role k := by
    rcases mem_of_tightest? hk with rfl | hmem
    · exact asTight_free role k'
    · exact hall' k ((hsame k).mpr hmem)
  rw [tightest?, tightest?, hk, hk', hle'.antisymm hS hkon' hkon hle]

end

end Endpoint

/-! ### The range of several terms -/

namespace RangePolicy

variable {policy : RangePolicy} {domain : Domain} {terms terms' : List Term}

section

variable (hS : Literal.InRow S)

include hS

/-- A term whose coordinate stands in the row narrows an interval. -/
theorem exists_narrow? {i : Interval} {t : Term} (hi : i.On S)
    (ht : (policy.termInterval domain t).On S) :
    ∃ j, policy.narrow? domain i t = some j ∧ j.On S := by
  have hlower : ∀ {i : Interval} {e : Endpoint}, i.On S → e.On .lower S →
      ∃ j, i.narrowLower? e = some j ∧ j.On S := by
    intro i e hi he
    obtain ⟨k, hk, hkon, -⟩ := Endpoint.exists_tighter? hS hi.lower he
    have hk : tighter? .gt i.lower e = some k := hk
    exact ⟨⟨k, i.upper⟩, by rw [Interval.narrowLower?, hk, Option.map_some], hkon, hi.upper⟩
  have hupper : ∀ {i : Interval} {e : Endpoint}, i.On S → e.On .upper S →
      ∃ j, i.narrowUpper? e = some j ∧ j.On S := by
    intro i e hi he
    obtain ⟨k, hk, hkon, -⟩ := Endpoint.exists_tighter? hS hi.upper he
    have hk : tighter? .lt i.upper e = some k := hk
    exact ⟨⟨i.lower, k⟩, by rw [Interval.narrowUpper?, hk, Option.map_some], hi.lower, hkon⟩
  cases t with
  | lower c s => exact hlower hi ht.lower
  | upper c s => exact hupper hi ht.upper
  | point c nullSafe =>
      obtain ⟨k, hk, hkon⟩ := hlower hi ht.lower
      obtain ⟨j, hj, hjon⟩ := hupper hkon ht.upper
      exact ⟨j, Option.bind_eq_some_iff.mpr ⟨k, hk, hj⟩, hjon⟩
  | contradiction => exact ⟨i, rfl, hi⟩

theorem exists_foldlM_narrow? {i : Interval} (hi : i.On S)
    (hon : ∀ t ∈ terms, (policy.termInterval domain t).On S) :
    ∃ j, terms.foldlM (policy.narrow? domain) i = some j := by
  induction terms generalizing i with
  | nil => exact ⟨i, rfl⟩
  | cons t terms ih =>
      rw [List.forall_mem_cons] at hon
      obtain ⟨k, hk, hkon⟩ := exists_narrow? hS hi hon.1
      obtain ⟨j, hj⟩ := ih hkon hon.2
      exact ⟨j, by rw [List.foldlM_cons, hk]; exact hj⟩

/-- What narrowing leaves depends on the set of terms. -/
theorem foldlM_narrow?_congr (hon : ∀ t ∈ terms, (policy.termInterval domain t).On S)
    (hsame : ∀ t, t ∈ terms' ↔ t ∈ terms) :
    terms'.foldlM (policy.narrow? domain) .unconstrained
      = terms.foldlM (policy.narrow? domain) .unconstrained := by
  have hon' : ∀ t ∈ terms', (policy.termInterval domain t).On S := fun t ht => hon t ((hsame t).mp ht)
  obtain ⟨j, hj⟩ := exists_foldlM_narrow? hS Interval.on_unconstrained hon
  obtain ⟨j', hj'⟩ := exists_foldlM_narrow? hS Interval.on_unconstrained hon'
  have hside : ∀ role, j'.endpoint role = j.endpoint role := by
    intro role
    have hends : ∀ e, e ∈ terms'.map (fun t => (policy.termInterval domain t).endpoint role) ↔
        e ∈ terms.map fun t => (policy.termInterval domain t).endpoint role := by
      intro e
      simp only [List.mem_map, hsame]
    have hcongr := Endpoint.tightest?_congr hS
      (List.forall_mem_map.mpr fun t ht => Interval.on_iff.mp (hon t ht) role) hends
    rw [tightest?_of_foldlM hj role, tightest?_of_foldlM hj' role] at hcongr
    exact Option.some.inj hcongr
  rw [hj, hj']
  exact congrArg some (congrArg₂ Interval.mk (hside .lower) (hside .upper))

/-- **The range of several terms depends on the set of terms.** -/
theorem constraint?_congr (hon : ∀ t ∈ terms, (policy.termInterval domain t).On S)
    (hsame : ∀ t, t ∈ terms' ↔ t ∈ terms) :
    policy.constraint? domain terms' = policy.constraint? domain terms := by
  have hany : ∀ p : Term → Bool, terms'.any p = terms.any p := by
    intro p
    rw [Bool.eq_iff_iff, List.any_eq_true, List.any_eq_true]
    simp only [hsame]
  have hcontradictory : contradictory terms' = contradictory terms := by
    rw [contradictory, contradictory, hany, hany, hany]
  rw [constraint?, constraint?, hany, hcontradictory, foldlM_narrow?_congr hS hon hsame]

end

end RangePolicy

end QueryAnalysis
