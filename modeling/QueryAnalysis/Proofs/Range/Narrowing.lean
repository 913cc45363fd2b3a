import QueryAnalysis.Proofs.Range.Membership

/-!
# Narrowing by terms

`RangePolicy.termInterval` is the interval that one term asks for. Narrowing by several terms keeps,
on each side, the tightest endpoint of their intervals (`RangePolicy.tightest?_of_foldlM`). Everything
else is derived from that: the outcome admits what all of them admit
(`RangePolicy.admits_narrowed_iff`), its endpoints are endpoints of theirs, and it is unconstrained
just if they all are.
-/

namespace QueryAnalysis

variable {S : Literal → Prop} {v : Literal} {role : Role}

/-! ### The tightest of several endpoints -/

namespace Endpoint

/-- The tightest of several endpoints on one side, if they can be compared. -/
def tightest? (role : Role) (endpoints : List Endpoint) : Option Endpoint :=
  endpoints.foldlM (tighter? role.inward) (free role)

/-- Each endpoint in turn bounds what the ones before it left. -/
theorem foldlM_tighter?_induct {motive : Endpoint → List Endpoint → Endpoint → Prop}
    (nil : ∀ e, motive e [] e)
    (cons : ∀ {e e' e'' candidate endpoints}, tighter? role.inward e candidate = some e' →
      motive e' endpoints e'' → motive e (candidate :: endpoints) e'')
    {endpoints : List Endpoint} {e e' : Endpoint}
    (h : endpoints.foldlM (tighter? role.inward) e = some e') : motive e endpoints e' := by
  induction endpoints generalizing e with
  | nil =>
      obtain rfl := Option.some.inj h
      exact nil e
  | cons candidate endpoints ih =>
      rw [List.foldlM_cons] at h
      obtain ⟨next, hnext, h⟩ := Option.bind_eq_some_iff.mp h
      exact cons hnext (ih h)

/-- The tightest endpoint is one of them, unless it bounds nothing. -/
theorem mem_of_tightest? {endpoints : List Endpoint} {e : Endpoint}
    (h : tightest? role endpoints = some e) : e = free role ∨ e ∈ endpoints := by
  refine foldlM_tighter?_induct (motive := fun e endpoints e' => e' = e ∨ e' ∈ endpoints)
    (fun e => .inl rfl) ?_ h
  intro e e' e'' candidate endpoints hnext ih
  rcases ih with rfl | hmem
  · rcases eq_or_eq_of_tighter? hnext with rfl | rfl
    · exact .inr List.mem_cons_self
    · exact .inl rfl
  · exact .inr (List.mem_cons_of_mem candidate hmem)

/-- The tightest endpoint admits what all of them admit. -/
theorem admits_tightest? (hv : v.CoherentAt S) {endpoints : List Endpoint} {e : Endpoint}
    (hon : ∀ x ∈ endpoints, x.On role S) (h : tightest? role endpoints = some e) :
    e.Admits role v ↔ ∀ x ∈ endpoints, x.Admits role v := by
  have hfold := foldlM_tighter?_induct
    (motive := fun e endpoints e' => e.On role S → (∀ x ∈ endpoints, x.On role S) →
      (e'.Admits role v ↔ e.Admits role v ∧ ∀ x ∈ endpoints, x.Admits role v))
    (fun e _ _ => by simp) ?_ h (on_free role) hon
  · simpa using hfold
  · intro e e' e'' candidate endpoints hnext ih he hon
    have hcandidate : candidate.On role S := hon candidate List.mem_cons_self
    have he' : e'.On role S := by
      rcases eq_or_eq_of_tighter? hnext with rfl | rfl
      · exact hcandidate
      · exact he
    rw [ih he' fun x hx => hon x (List.mem_cons_of_mem candidate hx),
      admits_tighter? hv he hcandidate hnext, List.forall_mem_cons, and_assoc]

/-- The tightest endpoint bounds nothing just if none of them does. -/
theorem tightest?_eq_free_iff {endpoints : List Endpoint} {e : Endpoint}
    (h : tightest? role endpoints = some e) : e = free role ↔ ∀ x ∈ endpoints, x = free role := by
  constructor
  · intro hfree
    have hfold := foldlM_tighter?_induct
      (motive := fun e endpoints e' => e' = free role → e = free role ∧ ∀ x ∈ endpoints, x = free role)
      (fun e he => ⟨he, by simp⟩) ?_ h hfree
    · exact hfold.2
    · intro e e' e'' candidate endpoints hnext ih hfree
      obtain ⟨rfl, hrest⟩ := ih hfree
      obtain ⟨he, hcandidate⟩ := eq_free_of_tighter? hnext
      exact ⟨he, List.forall_mem_cons.mpr ⟨hcandidate, hrest⟩⟩
  · intro hall
    rcases mem_of_tightest? h with hfree | hmem
    · exact hfree
    · exact hall e hmem

end Endpoint

/-! ### Terms -/

namespace Interval

/-- The endpoint on a side. -/
def endpoint (i : Interval) : Role → Endpoint
  | .lower => i.lower
  | .upper => i.upper

theorem on_iff {i : Interval} : i.On S ↔ ∀ role, (i.endpoint role).On role S :=
  ⟨fun h role => by cases role; exacts [h.lower, h.upper], fun h => ⟨h .lower, h .upper⟩⟩

theorem admits_iff {i : Interval} : i.Admits v ↔ ∀ role, (i.endpoint role).Admits role v :=
  ⟨fun h role => by cases role; exacts [h.lower, h.upper], fun h => ⟨h .lower, h .upper⟩⟩

theorem exists_isNull_iff {i : Interval} :
    (∃ role, (i.endpoint role).isNull = true) ↔ (i.lower.isNull || i.upper.isNull) = true := by
  rw [Bool.or_eq_true]
  constructor
  · rintro ⟨role, hnull⟩
    cases role with
    | lower => exact .inl hnull
    | upper => exact .inr hnull
  · rintro (hnull | hnull)
    · exact ⟨.lower, hnull⟩
    · exact ⟨.upper, hnull⟩

/-- An interval with the tightest endpoints of several intervals admits what all of them admit. -/
theorem admits_iff_of_tightest? (hv : v.CoherentAt S) {intervals : List Interval} {j : Interval}
    (hon : ∀ i ∈ intervals, i.On S)
    (h : ∀ role, Endpoint.tightest? role (intervals.map fun i => i.endpoint role)
      = some (j.endpoint role)) :
    j.Admits v ↔ ∀ i ∈ intervals, i.Admits v := by
  have hside : ∀ role, (j.endpoint role).Admits role v ↔
      ∀ i ∈ intervals, (i.endpoint role).Admits role v := by
    intro role
    rw [Endpoint.admits_tightest? hv ?_ (h role), List.forall_mem_map]
    exact List.forall_mem_map.mpr fun i hi => on_iff.mp (hon i hi) role
  rw [admits_iff]
  constructor
  · intro hadmits i hi
    exact admits_iff.mpr fun role => (hside role).mp (hadmits role) i hi
  · intro hadmits role
    exact (hside role).mpr fun i hi => admits_iff.mp (hadmits i hi) role

end Interval

/-- The coordinate at which a term bounds its column. -/
def Term.coordinate? : Term → Option Coordinate
  | lower c _ => some c
  | upper c _ => some c
  | point c _ => some c
  | contradiction => none

namespace RangePolicy

variable {policy : RangePolicy} {domain : Domain} {terms : List Term}

/-- The interval that one term asks for. -/
def termInterval (policy : RangePolicy) (domain : Domain) : Term → Interval
  | .lower c s => ⟨policy.endpoint domain .lower s c, .posInfinity⟩
  | .upper c s => ⟨.negInfinity, policy.endpoint domain .upper s c⟩
  | .point c _ => ⟨policy.endpoint domain .lower .closed c, policy.endpoint domain .upper .closed c⟩
  | .contradiction => .unconstrained

/-- An endpoint of a term's interval is at the term's coordinate, or bounds nothing. -/
theorem endpoint_termInterval (policy : RangePolicy) (domain : Domain) (t : Term) (role : Role) :
    (policy.termInterval domain t).endpoint role = Endpoint.free role ∨
      ∃ s c, t.coordinate? = some c ∧
        (policy.termInterval domain t).endpoint role = policy.endpoint domain role s c := by
  cases t with
  | lower c s =>
      cases role with
      | lower => exact .inr ⟨s, c, rfl, rfl⟩
      | upper => exact .inl rfl
  | upper c s =>
      cases role with
      | lower => exact .inl rfl
      | upper => exact .inr ⟨s, c, rfl, rfl⟩
  | point c nullSafe => cases role <;> exact .inr ⟨.closed, c, rfl, rfl⟩
  | contradiction => cases role <;> exact .inl rfl

theorem tighter?_free (role : Role) (e : Endpoint) :
    tighter? role.inward e (Endpoint.free role) = some e := by
  unfold tighter?
  by_cases h : e = Endpoint.free role
  · subst h
    cases role <;> rfl
  · rw [Endpoint.free_compare? h, Option.map_some, if_neg role.inward_ne_outward.symm]

/-- Narrowing by a term takes the tighter endpoint on each side. -/
theorem tighter?_of_narrow? {i j : Interval} {term : Term}
    (h : policy.narrow? domain i term = some j) (role : Role) :
    tighter? role.inward (i.endpoint role) ((policy.termInterval domain term).endpoint role)
      = some (j.endpoint role) := by
  have hlower : ∀ {i j : Interval} {e : Endpoint}, i.narrowLower? e = some j →
      tighter? .gt i.lower e = some j.lower ∧ j.upper = i.upper := by
    intro i j e h
    obtain ⟨lower, hlower, rfl⟩ := Option.map_eq_some_iff.mp h
    exact ⟨hlower, rfl⟩
  have hupper : ∀ {i j : Interval} {e : Endpoint}, i.narrowUpper? e = some j →
      tighter? .lt i.upper e = some j.upper ∧ j.lower = i.lower := by
    intro i j e h
    obtain ⟨upper, hupper, rfl⟩ := Option.map_eq_some_iff.mp h
    exact ⟨hupper, rfl⟩
  cases term with
  | lower c s =>
      obtain ⟨hl, hu⟩ := hlower h
      cases role with
      | lower => exact hl
      | upper => exact (tighter?_free .upper i.upper).trans (congrArg some hu.symm)
  | upper c s =>
      obtain ⟨hu, hl⟩ := hupper h
      cases role with
      | lower => exact (tighter?_free .lower i.lower).trans (congrArg some hl.symm)
      | upper => exact hu
  | point c nullSafe =>
      obtain ⟨k, hk, h⟩ := Option.bind_eq_some_iff.mp h
      obtain ⟨hl, hu⟩ := hlower hk
      obtain ⟨hu', hl'⟩ := hupper h
      cases role with
      | lower => exact hl.trans (congrArg some hl'.symm)
      | upper =>
          rw [hu] at hu'
          exact hu'
  | contradiction =>
      obtain rfl := Option.some.inj h
      cases role with
      | lower => exact tighter?_free .lower i.lower
      | upper => exact tighter?_free .upper i.upper

/-- Narrowing by several terms takes the tighter endpoint on each side, term by term. -/
theorem foldlM_tighter?_of_foldlM {i j : Interval}
    (h : terms.foldlM (policy.narrow? domain) i = some j) (role : Role) :
    (terms.map fun t => (policy.termInterval domain t).endpoint role).foldlM
      (tighter? role.inward) (i.endpoint role) = some (j.endpoint role) := by
  induction terms generalizing i with
  | nil =>
      obtain rfl := Option.some.inj h
      rfl
  | cons term terms ih =>
      rw [List.foldlM_cons] at h
      obtain ⟨k, hk, h⟩ := Option.bind_eq_some_iff.mp h
      rw [List.map_cons, List.foldlM_cons, tighter?_of_narrow? hk role]
      exact ih h

/-- From an unconstrained interval on, the tightest endpoint is left on each side. -/
theorem tightest?_of_foldlM {j : Interval}
    (h : terms.foldlM (policy.narrow? domain) .unconstrained = some j) (role : Role) :
    Endpoint.tightest? role (terms.map fun t => (policy.termInterval domain t).endpoint role)
      = some (j.endpoint role) := by
  have hfree : Interval.unconstrained.endpoint role = Endpoint.free role := by
    cases role <;> rfl
  rw [Endpoint.tightest?, ← hfree]
  exact foldlM_tighter?_of_foldlM h role

/-! ### The narrowed interval -/

section Narrowed

variable {j : Interval} (h : terms.foldlM (policy.narrow? domain) .unconstrained = some j)

include h

/-- An endpoint that bounds something is one that a term asks for. -/
theorem exists_term_of_endpoint (role : Role) :
    j.endpoint role = Endpoint.free role ∨
      ∃ t ∈ terms, (policy.termInterval domain t).endpoint role = j.endpoint role := by
  rcases Endpoint.mem_of_tightest? (tightest?_of_foldlM h role) with hfree | hmem
  · exact .inl hfree
  · exact .inr (List.mem_map.mp hmem)

theorem on_narrowed (hon : ∀ t ∈ terms, (policy.termInterval domain t).On S) : j.On S := by
  refine Interval.on_iff.mpr ?_
  intro role
  rcases exists_term_of_endpoint h role with hfree | ⟨t, ht, heq⟩
  · rw [hfree]
    exact Endpoint.on_free role
  · rw [← heq]
    exact Interval.on_iff.mp (hon t ht) role

/-- The narrowed interval admits what the intervals of all terms admit. -/
theorem admits_narrowed_iff (hv : v.CoherentAt S)
    (hon : ∀ t ∈ terms, (policy.termInterval domain t).On S) :
    j.Admits v ↔ ∀ t ∈ terms, (policy.termInterval domain t).Admits v := by
  have htightest : ∀ role, Endpoint.tightest? role
      ((terms.map (policy.termInterval domain)).map fun i => i.endpoint role)
        = some (j.endpoint role) := by
    intro role
    rw [List.map_map]
    exact tightest?_of_foldlM h role
  rw [Interval.admits_iff_of_tightest? hv (List.forall_mem_map.mpr hon) htightest,
    List.forall_mem_map]

/-- The narrowed interval is unconstrained just if no term asks for anything. -/
theorem narrowed_eq_unconstrained_iff :
    j = .unconstrained ↔ ∀ t ∈ terms, policy.termInterval domain t = .unconstrained := by
  have hside : ∀ role, j.endpoint role = Endpoint.free role ↔
      ∀ t ∈ terms, (policy.termInterval domain t).endpoint role = Endpoint.free role := by
    intro role
    rw [Endpoint.tightest?_eq_free_iff (tightest?_of_foldlM h role), List.forall_mem_map]
  have hfree : ∀ i : Interval, i = .unconstrained ↔ ∀ role, i.endpoint role = Endpoint.free role := by
    intro i
    constructor
    · rintro rfl role
      cases role <;> rfl
    · intro hall
      cases i with
      | mk lower upper => exact congrArg₂ Interval.mk (hall .lower) (hall .upper)
  rw [hfree]
  constructor
  · intro hj t ht
    exact (hfree _).mpr fun role => (hside role).mp (hj role) t ht
  · intro hall role
    exact (hside role).mpr fun t ht => (hfree _).mp (hall t ht) role

/-- If all terms ask for one interval, that is what is left. -/
theorem narrowed_eq_of_forall {k : Interval} (hne : terms ≠ [])
    (hall : ∀ t ∈ terms, policy.termInterval domain t = k) : j = k := by
  have hside : ∀ role, j.endpoint role = k.endpoint role := by
    intro role
    rcases exists_term_of_endpoint h role with hfree | ⟨t, ht, heq⟩
    · -- Then no term bounds anything on this side, and neither does the one interval.
      obtain ⟨t, ht⟩ := List.exists_mem_of_ne_nil terms hne
      have hnone := (Endpoint.tightest?_eq_free_iff (tightest?_of_foldlM h role)).mp hfree
      rw [hfree, ← hall t ht]
      exact (hnone _ (List.mem_map_of_mem ht)).symm
    · rw [← heq, hall t ht]
  cases j with
  | mk lower upper => exact congrArg₂ Interval.mk (hside .lower) (hside .upper)

end Narrowed

end RangePolicy

end QueryAnalysis
