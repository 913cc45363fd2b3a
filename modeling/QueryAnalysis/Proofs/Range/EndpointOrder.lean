import QueryAnalysis.Proofs.Range.Membership

/-!
# The order of endpoints agrees with what they admit

Endpoints at literals of one variant are ordered first by their coordinates and then by how they stand
to them, with the infinities at the ends, and lower and upper endpoints stand in the same order. It is
total and steps in it compose, since steps between the coordinates compose and so do those between the
offsets (`Endpoint.compare?_then`).

The order says what endpoints admit as bounds. Of two lower endpoints the smaller one admits what the
greater one does, of two upper endpoints the greater one, and a lower endpoint beyond an upper one
leaves nothing between them (`Endpoint.order_agrees`).
-/

namespace QueryAnalysis

/-! ### Lexicographic steps -/

/-- Steps of a lexicographic order compose if those of its parts do: `x` and `y` are the steps of the
first part, `p`, `q` and `r` those of the second, the last one from the first place to the third. -/
theorem then_then_of_ne_gt {x y p q r : Ordering} (hxp : x.then p ≠ .gt) (hyq : y.then q ≠ .gt)
    (hr : p ≠ .gt → q ≠ .gt → r = p.then q) : (x.then y).then r = (x.then p).then (y.then q) := by
  cases x with
  | gt => exact absurd rfl hxp
  | lt => rfl
  | eq =>
      cases y with
      | gt => exact absurd rfl hyq
      | eq => exact hr hxp hyq
      | lt =>
          -- The second part has moved up at most, and then the first part moves up.
          cases p with
          | gt => exact absurd rfl hxp
          | lt | eq => rfl

namespace Endpoint

variable {S : Literal → Prop} {r r' r'' : Role} {a b c : Endpoint}

theorem then_ne_outward {role : Role} {x y : Ordering} (h : x.then y ≠ role.outward) :
    x ≠ role.outward := by
  intro hx
  rw [hx] at h
  cases role <;> exact h rfl

/-! ### A total order -/

theorem negInfinity_compare? (h : a ≠ negInfinity) : negInfinity.compare? a = some .lt := by
  show (free .lower).compare? a = some Role.lower.outward
  exact free_compare? h

theorem compare?_posInfinity (h : a ≠ posInfinity) : a.compare? posInfinity = some .lt := by
  show a.compare? (free .upper) = some Role.upper.inward
  exact compare?_free h

/-- Endpoints at literals that can be compared can be compared, and in either direction. -/
theorem exists_compare? (hS : ∀ {l m}, S l → S m → l.compare? m ≠ none) (ha : a.On r S)
    (hb : b.On r' S) : ∃ x, a.compare? b = some x ∧ b.compare? a = some x.swap := by
  have hdefined : ∃ x, a.compare? b = some x := by
    cases a with
    | negInfinity => cases b <;> exact ⟨_, rfl⟩
    | posInfinity => cases b <;> exact ⟨_, rfl⟩
    | finite _ s d =>
        cases b with
        | negInfinity => exact ⟨_, rfl⟩
        | posInfinity => exact ⟨_, rfl⟩
        | finite _ s' d' =>
            obtain ⟨l, rfl, -, hl⟩ := ha.exists_literal
            obtain ⟨m, rfl, -, hm⟩ := hb.exists_literal
            obtain ⟨y, hy⟩ := Option.ne_none_iff_exists'.mp (hS hl hm)
            exact ⟨_, Option.map_eq_some_iff.mpr ⟨y, hy, rfl⟩⟩
  obtain ⟨x, hx⟩ := hdefined
  exact ⟨x, hx, by rw [compare?_swap, hx, Option.map_some]⟩

theorem compare?_self (hS : ∀ {l}, S l → l.compare? l = some .eq) (ha : a.On r S) :
    a.compare? a = some .eq := by
  cases a with
  | negInfinity => rfl
  | posInfinity => rfl
  | finite _ s d =>
      obtain ⟨l, rfl, -, hl⟩ := ha.exists_literal
      refine Option.map_eq_some_iff.mpr ⟨.eq, hS hl, ?_⟩
      rw [Ordering.eq_then]
      exact Std.ReflCmp.compare_self

/-- Steps up from endpoint to endpoint compose, on whichever sides the endpoints stand. -/
theorem compare?_then (hS : ∀ {l}, S l → l.CoherentAt S) (ha : a.On r S) (hb : b.On r' S)
    (hc : c.On r'' S) {x y : Ordering} (hx : a.compare? b = some x) (hy : b.compare? c = some y)
    (hxgt : x ≠ .gt) (hygt : y ≠ .gt) : a.compare? c = some (x.then y) := by
  cases b with
  | negInfinity =>
      -- Only minus infinity is not above it.
      cases a with
      | negInfinity =>
          obtain rfl := Option.some.inj hx
          exact hy
      | posInfinity => exact absurd (Option.some.inj hx).symm hxgt
      | finite => exact absurd (Option.some.inj hx).symm hxgt
  | posInfinity =>
      cases c with
      | posInfinity =>
          obtain rfl := Option.some.inj hy
          rw [Ordering.then_eq]
          exact hx
      | negInfinity => exact absurd (Option.some.inj hy).symm hygt
      | finite => exact absurd (Option.some.inj hy).symm hygt
  | finite _ s' d' =>
      cases a with
      | posInfinity => exact absurd (Option.some.inj hx).symm hxgt
      | negInfinity =>
          obtain rfl := Option.some.inj hx
          cases c with
          | negInfinity => exact absurd (Option.some.inj hy).symm hygt
          | posInfinity => rfl
          | finite => rfl
      | finite _ s d =>
          cases c with
          | negInfinity => exact absurd (Option.some.inj hy).symm hygt
          | posInfinity =>
              obtain rfl := Option.some.inj hy
              cases x with
              | gt => exact absurd rfl hxgt
              | lt => rfl
              | eq => rfl
          | finite _ s'' d'' =>
              obtain ⟨l, rfl, -, hl⟩ := ha.exists_literal
              obtain ⟨m, rfl, -, hm⟩ := hb.exists_literal
              obtain ⟨n, rfl, -, hn⟩ := hc.exists_literal
              obtain ⟨i, hi, rfl⟩ := Option.map_eq_some_iff.mp hx
              obtain ⟨j, hj, rfl⟩ := Option.map_eq_some_iff.mp hy
              have hcoordinates : l.compare? n = some (i.then j) :=
                hS hl .upper hm hn hi hj (then_ne_outward hxgt) (then_ne_outward hygt)
              refine Option.map_eq_some_iff.mpr ⟨i.then j, hcoordinates, ?_⟩
              exact then_then_of_ne_gt hxgt hygt (compare_then .upper)

/-- Steps on one side's way inward compose as well: they are steps up or steps down. -/
theorem compare?_then_inward (hS : ∀ {l}, S l → l.CoherentAt S) (role : Role) (ha : a.On r S)
    (hb : b.On r' S) (hc : c.On r'' S) {x y : Ordering} (hx : a.compare? b = some x)
    (hy : b.compare? c = some y) (hxo : x ≠ role.outward) (hyo : y ≠ role.outward) :
    a.compare? c = some (x.then y) := by
  cases role with
  | upper => exact compare?_then hS ha hb hc hx hy hxo hyo
  | lower =>
      -- Read from the end, the two steps go up.
      have hback : c.compare? a = some (y.swap.then x.swap) := by
        refine compare?_then hS hc hb ha ?_ ?_ ?_ ?_
        · rw [compare?_swap, hy, Option.map_some]
        · rw [compare?_swap, hx, Option.map_some]
        · cases y <;> first | decide | exact absurd rfl hyo
        · cases x <;> first | decide | exact absurd rfl hxo
      rw [compare?_swap, hback, Option.map_some]
      cases x <;> cases y <;> first | rfl | exact absurd rfl hxo | exact absurd rfl hyo

/-! ### The order and what endpoints admit -/

/-- **The order of endpoints agrees with what they admit**, for endpoints and values of one variant. It
is a total preorder between the infinities: any two endpoints compare, the other way round with the
reverse answer, and steps up compose. Of lower endpoints the smaller one admits more, of upper endpoints
the greater one, and nothing lies between a lower endpoint and a smaller upper one. So the tighter of
two endpoints on a side admits what both admit. -/
theorem order_agrees {w : Literal} (ha : a.On r w.PeerOf) (hb : b.On r' w.PeerOf)
    (hc : c.On r'' w.PeerOf) :
    (∃ x, a.compare? b = some x ∧ b.compare? a = some x.swap) ∧
    a.compare? a = some .eq ∧
    (∀ x y, a.compare? b = some x → b.compare? c = some y → x ≠ .gt → y ≠ .gt →
      a.compare? c = some (x.then y)) ∧
    (a ≠ negInfinity → negInfinity.compare? a = some .lt) ∧
    (a ≠ posInfinity → a.compare? posInfinity = some .lt) ∧
    (a.On .lower w.PeerOf → b.On .lower w.PeerOf → a.compare? b ≠ some .gt →
      ∀ v, w.PeerOf v → b.above? v = some true → a.above? v = some true) ∧
    (a.On .upper w.PeerOf → b.On .upper w.PeerOf → a.compare? b ≠ some .gt →
      ∀ v, w.PeerOf v → a.below? v = some true → b.below? v = some true) ∧
    (a.On .lower w.PeerOf → b.On .upper w.PeerOf → a.compare? b = some .gt →
      ∀ v, w.PeerOf v → ¬ (a.above? v = some true ∧ b.below? v = some true)) ∧
    ∀ role, a.On role w.PeerOf → b.On role w.PeerOf →
      ∃ e, tighter? role.inward a b = some e ∧
        ∀ v, w.PeerOf v → (e.Admits role v ↔ a.Admits role v ∧ b.Admits role v) := by
  have hcoherent : ∀ {v}, w.PeerOf v → v.CoherentAt w.PeerOf :=
    fun hv => (Literal.uniform_peerOf w).coherentAt hv
  obtain ⟨x, hx, hxswap⟩ := exists_compare? Literal.PeerOf.compare?_ne_none ha hb
  refine ⟨⟨x, hx, hxswap⟩, compare?_self Literal.PeerOf.compare?_self ha,
    fun _ _ => compare?_then hcoherent ha hb hc, negInfinity_compare?, compare?_posInfinity,
    ?_, ?_, ?_, ?_⟩
  · intro hal hbl hle v hv hadmits
    show a.Admits .lower v
    refine Admits.of_compare? (hcoherent hv) hbl hal hxswap ?_ hadmits
    intro hswap
    exact hle (by rw [hx, ← Ordering.swap_swap (o := x), hswap]; rfl)
  · intro hau hbu hle v hv hadmits
    show b.Admits .upper v
    refine Admits.of_compare? (hcoherent hv) hau hbu hx ?_ hadmits
    intro hgt
    exact hle (by rw [hx, hgt]; rfl)
  · intro hal hbu hcrossed v hv hadmits
    have hon : Interval.On w.PeerOf ⟨a, b⟩ := ⟨hal, hbu⟩
    exact Interval.not_admits_of_crossed (hcoherent hv) hon hcrossed ⟨hadmits.1, hadmits.2⟩
  · intro role har hbr
    refine ⟨if x.swap = role.inward then b else a, ?_, ?_⟩
    · rw [tighter?, hxswap, Option.map_some]
    · intro v hv
      exact admits_tighter? (hcoherent hv) har hbr (by rw [tighter?, hxswap, Option.map_some])

/-- At three the closed lower endpoint comes before the open one, and both come before the open upper
endpoint at seven. The tighter one of them is the open one, which does not admit three. -/
theorem order_agrees_atThree :
    let closed := finite .lower .closed (.literal (.int 3))
    let opened := finite .lower .opened (.literal (.int 3))
    let below := finite .upper .opened (.literal (.int 7))
    closed.compare? opened = some .lt ∧ opened.compare? below = some .lt ∧
      closed.compare? below = some .lt ∧ closed.above? (.int 4) = some true ∧
      ∃ e, tighter? .gt closed opened = some e ∧ ¬ e.Admits .lower (.int 3) := by
  intro closed opened below
  have hclosed : closed.On .lower (Literal.PeerOf (.int 3)) := ⟨rfl, .inr .int⟩
  have hopened : opened.On .lower (Literal.PeerOf (.int 3)) := ⟨rfl, .inr .int⟩
  have hbelow : below.On .upper (Literal.PeerOf (.int 3)) := ⟨rfl, .inr .int⟩
  obtain ⟨-, -, htrans, -, -, hlower, -, -, htighter⟩ := order_agrees hclosed hopened hbelow
  obtain ⟨e, he, hadmits⟩ := htighter .lower hclosed hopened
  refine ⟨by decide, by decide, htrans .lt .lt (by decide) (by decide) (by decide) (by decide),
    hlower hclosed hopened (by decide) (.int 4) (.inr .int) (by decide), e, he, ?_⟩
  rw [hadmits (.int 3) (.inr .int)]
  decide

end Endpoint

end QueryAnalysis
