import QueryAnalysis.Proofs.Range.Membership

/-!
# Rounded endpoints

Over an integral domain an endpoint moves to an integer of the domain or to an infinity, and for the
integers of the domain nothing changes: `Endpoint.admits_rounded_iff` says that the rounded endpoint
admits an integer just if the integer stands in the right way to the coordinate, both read as exact
numbers (`Literal.exactCompare?`). An endpoint that is at an integer of the domain stays as it is when
it is rounded again (`Endpoint.rounded_of_settled`).
-/

namespace QueryAnalysis

variable {S : Literal → Prop} {role : Role}

/-! ### Exact numbers -/

namespace Double

theorem unitsPerOne_pos : (0 : Int) < (unitsPerOne : Int) := by
  obtain ⟨k, -, hk⟩ := exists_unitsPerOne_eq
  rw [hk, Nat.one_shiftLeft]
  exact Int.natCast_pos.mpr (Nat.two_pow_pos k)

/-- An integer is below the ceiling just if it is below the number. -/
theorem lt_ceil_iff (d : Double) (i : Int) : i < d.ceil ↔ i * (unitsPerOne : Int) < d.units := by
  have h : -d.units / (unitsPerOne : Int) < -i ↔ -d.units < -i * (unitsPerOne : Int) :=
    Int.ediv_lt_iff_lt_mul unitsPerOne_pos
  rw [Int.neg_mul] at h
  unfold ceil
  omega

/-- The ceiling of a whole number is the number. -/
theorem ceil_mul_of_isWhole {d : Double} (h : d.isWhole = true) :
    d.ceil * (unitsPerOne : Int) = d.units := by
  have hmod : d.units % (unitsPerOne : Int) = 0 := of_decide_eq_true h
  have hdvd : (unitsPerOne : Int) ∣ -d.units := Int.dvd_neg.mpr (Int.dvd_of_emod_eq_zero hmod)
  rw [ceil, Int.neg_mul, Int.ediv_mul_cancel hdvd, Int.neg_neg]

/-- No integer equals a number that is not whole. -/
theorem mul_ne_of_not_isWhole {d : Double} (h : d.isWhole = false) (i : Int) :
    i * (unitsPerOne : Int) ≠ d.units := by
  intro heq
  refine of_decide_eq_false h ?_
  rw [← heq, Int.mul_emod_left]

end Double

/-- The order of multiples of a positive number is that of the factors. -/
theorem compare_mul_right {a b c : Int} (hc : 0 < c) : compare (a * c) (b * c) = compare a b := by
  rcases Int.lt_trichotomy a b with h | h | h
  · rw [Int.compare_eq_lt.mpr h, Int.compare_eq_lt.mpr (Int.mul_lt_mul_of_pos_right h hc)]
  · rw [h, Std.ReflOrd.compare_self, Std.ReflOrd.compare_self]
  · rw [Int.compare_eq_gt.mpr h, Int.compare_eq_gt.mpr (Int.mul_lt_mul_of_pos_right h hc)]

/-- The order of two numbers, of which one at least is an integer, as exact numbers. What is no
number, and null, compare with nothing. -/
def Literal.exactCompare? : Literal → Literal → Option Ordering
  | int a, int b => some (compare a.toInt b.toInt)
  | int a, float b =>
    if b.isFinite then some (compare (a.toInt * (Double.unitsPerOne : Int)) b.units)
    else if b.isNaN then none
    else some (if b.isNegative then .gt else .lt)
  | float a, int b =>
    if a.isFinite then some (compare a.units (b.toInt * (Double.unitsPerOne : Int)))
    else if a.isNaN then none
    else some (if a.isNegative then .lt else .gt)
  | _, _ => none

theorem Literal.exactCompare?_swap (a b : Literal) :
    b.exactCompare? a = (a.exactCompare? b).map Ordering.swap := by
  have hfloat : ∀ (i : Int64) (d : Double),
      (float d).exactCompare? (int i) = ((int i).exactCompare? (float d)).map Ordering.swap := by
    intro i d
    simp only [exactCompare?]
    split
    · exact congrArg some Std.OrientedOrd.eq_swap
    · split
      · rfl
      · split <;> rfl
  cases a with
  | int i =>
      cases b with
      | int j => exact congrArg some Std.OrientedOrd.eq_swap
      | float d => exact hfloat i d
      | _ => rfl
  | float c =>
      cases b with
      | int j =>
          rw [hfloat j c, Option.map_map, show Ordering.swap ∘ Ordering.swap = id from
            funext fun _ => Ordering.swap_swap, Option.map_id_apply]
      | _ => rfl
  | _ => cases b <;> rfl

/-! ### Integers of a domain -/

/-- The integral types are those of 64 bits or less. -/
theorem DataType.integralRange?_bounds {type : DataType} {least greatest : Int}
    (h : type.integralRange? = some (least, greatest)) :
    -2 ^ 63 ≤ least ∧ least < greatest ∧ greatest < 2 ^ 63 := by
  cases type <;> simp only [integralRange?, Option.some.injEq, Prod.mk.injEq, reduceCtorEq] at h <;>
    omega

namespace Endpoint

variable {least greatest value : Int} {s : Strictness}

/-- Whether an endpoint at an integer admits nothing of a domain. -/
def Misses (least greatest : Int) (role : Role) (s : Strictness) (value : Int) : Prop :=
  match role with
  | .lower => greatest < value ∨ (value = greatest ∧ s = .opened)
  | .upper => value < least ∨ (value = least ∧ s = .opened)

/-- Whether an endpoint at an integer lies outside a domain on its free side. -/
def Exceeds (least greatest : Int) (role : Role) (value : Int) : Prop :=
  match role with
  | .lower => value < least
  | .upper => greatest < value

/-- The three places of a rounded endpoint. -/
theorem ofIntegral_cases (least greatest : Int) (role : Role) (s : Strictness) (value : Int) :
    (Misses least greatest role s value ∧ ofIntegral least greatest role s value = blocked role) ∨
      (Exceeds least greatest role value ∧ ¬ Misses least greatest role s value ∧
        ofIntegral least greatest role s value = free role) ∨
      (¬ Misses least greatest role s value ∧ ¬ Exceeds least greatest role value ∧
        ofIntegral least greatest role s value
          = finite role s (.literal (.int (Int64.ofInt value)))) := by
  cases role with
  | lower =>
      simp only [ofIntegral, Misses, Exceeds]
      split
      · next h => exact .inl ⟨h, rfl⟩
      · next h =>
          split
          · next h' => exact .inr (.inl ⟨h', h, rfl⟩)
          · next h' => exact .inr (.inr ⟨h, h', rfl⟩)
  | upper =>
      simp only [ofIntegral, Misses, Exceeds]
      split
      · next h => exact .inl ⟨h, rfl⟩
      · next h =>
          split
          · next h' => exact .inr (.inl ⟨h', h, rfl⟩)
          · next h' => exact .inr (.inr ⟨h, h', rfl⟩)

/-- An endpoint inside a domain stands between the bounds of the domain. -/
theorem bounds_of_inside (hmiss : ¬ Misses least greatest role s value)
    (hexceed : ¬ Exceeds least greatest role value) : least ≤ value ∧ value ≤ greatest := by
  cases role <;> simp only [Misses, Exceeds, not_or] at hmiss hexceed <;> omega

theorem on_ofIntegral (hS : ∀ i, S (.int i)) :
    (ofIntegral least greatest role s value).On role S := by
  rcases ofIntegral_cases least greatest role s value with ⟨-, h⟩ | ⟨-, -, h⟩ | ⟨-, -, h⟩
  · rw [h]
    exact on_free role.opposite
  · rw [h]
    exact on_free role
  · rw [h]
    exact ⟨rfl, hS _⟩

/-- For the integers of the domain nothing changes. -/
theorem admits_ofIntegral_iff {type : DataType} (htype : type.integralRange? = some (least, greatest))
    {i : Int64} (hi : least ≤ i.toInt ∧ i.toInt ≤ greatest) :
    (ofIntegral least greatest role s value).Admits role (.int i) ↔
      s.Allows role (compare i.toInt value) := by
  obtain ⟨hlow, -, hhigh⟩ := type.integralRange?_bounds htype
  rcases ofIntegral_cases least greatest role s value with
    ⟨hmiss, h⟩ | ⟨hexceed, -, h⟩ | ⟨hmiss, hexceed, h⟩
  · rw [h]
    -- No integer of the domain is beyond an endpoint that misses it.
    refine iff_of_false (not_admits_blocked role _) ?_
    intro hallows
    cases role <;> cases s <;> simp only [Misses, Strictness.Allows, Role.inward, Role.outward,
      Int.compare_eq_lt, Int.compare_eq_gt, ne_eq, and_true, reduceCtorEq, and_false, or_false]
      at hmiss hallows <;> omega
  · rw [h]
    refine iff_of_true (admits_free role _) ?_
    cases role <;> cases s <;> simp only [Exceeds, Strictness.Allows, Role.inward, Role.outward,
      Int.compare_eq_lt, Int.compare_eq_gt, ne_eq] at hexceed ⊢ <;> omega
  · have hvalue := bounds_of_inside hmiss hexceed
    rw [h, admits_finite_iff, Literal.compare?, Int64.toInt_ofInt_of_le (by omega) (by omega)]
    simp

/-! ### Rounded endpoints -/

/-- A coordinate that is no finite number stays where it is. -/
theorem rounded_of_integral?_eq_none {domain : Domain} {c : Coordinate}
    (h : c.integral? role s = none) : rounded domain role s c = finite role s c := by
  unfold rounded
  rw [h]
  cases domain.type.integralRange? <;> rfl

/-- Over a domain that is not integral every coordinate stays where it is. -/
theorem rounded_of_integralRange?_eq_none {domain : Domain} {c : Coordinate}
    (h : domain.type.integralRange? = none) : rounded domain role s c = finite role s c := by
  unfold rounded
  rw [h]

theorem rounded_of_integral? {domain : Domain} {c : Coordinate} {s' : Strictness}
    (hrange : domain.type.integralRange? = some (least, greatest))
    (h : c.integral? role s = some (value, s')) :
    rounded domain role s c = ofIntegral least greatest role s' value := by
  unfold rounded
  rw [hrange, h]

/-- A fraction and the integer that takes its place bound the same integers. -/
theorem allows_of_integral?_float {d : Double} (hfinite : d.isFinite = true) {s' : Strictness}
    (h : Coordinate.integral? role s (.literal (.float d)) = some (value, s')) (i : Int) :
    s'.Allows role (compare i value) ↔
      s.Allows role (compare (i * (Double.unitsPerOne : Int)) d.units) := by
  have hlt := d.lt_ceil_iff i
  simp only [Coordinate.integral?, hfinite, if_true] at h
  cases hwhole : d.isWhole with
  | true =>
      simp only [hwhole, if_true, Option.some.injEq, Prod.mk.injEq] at h
      obtain ⟨rfl, rfl⟩ := h
      have heq : compare i d.ceil = compare (i * (Double.unitsPerOne : Int)) d.units := by
        rw [← Double.ceil_mul_of_isWhole hwhole, compare_mul_right Double.unitsPerOne_pos]
      rw [heq]
  | false =>
      have hne := Double.mul_ne_of_not_isWhole hwhole i
      simp only [hwhole, Bool.false_eq_true, if_false] at h
      cases role <;> simp only [Option.some.injEq, Prod.mk.injEq] at h <;> obtain ⟨rfl, rfl⟩ := h <;>
        cases s <;> simp only [Strictness.Allows, Role.inward, Role.outward, Int.compare_eq_lt,
          Int.compare_eq_gt, ne_eq] <;> omega

/-- **A rounded endpoint admits the same integers of the domain.** The coordinate is read as an exact
number. -/
theorem admits_rounded_iff {domain : Domain}
    (hrange : domain.type.integralRange? = some (least, greatest)) {i : Int64}
    (hi : least ≤ i.toInt ∧ i.toInt ≤ greatest) {l : Literal} (hl : l ≠ .null) :
    (rounded domain role s (.literal l)).Admits role (.int i) ↔
      ∃ x, (Literal.int i).exactCompare? l = some x ∧ s.Allows role x := by
  cases l with
  | null => exact absurd rfl hl
  | boolean b =>
      rw [rounded_of_integral?_eq_none rfl, admits_finite_iff]
      simp [Literal.compare?, Literal.exactCompare?]
  | string t =>
      rw [rounded_of_integral?_eq_none rfl, admits_finite_iff]
      simp [Literal.compare?, Literal.exactCompare?]
  | int n =>
      rw [rounded_of_integral? hrange rfl, admits_ofIntegral_iff hrange hi]
      simp [Literal.exactCompare?]
  | float d =>
      cases hfinite : d.isFinite with
      | true =>
          -- A finite double moves to an integer, which the value compares with exactly.
          obtain ⟨⟨value, s'⟩, hplace⟩ : ∃ place,
              Coordinate.integral? role s (.literal (.float d)) = some place := by
            simp only [Coordinate.integral?, hfinite, if_true]
            split
            · exact ⟨_, rfl⟩
            · split <;> exact ⟨_, rfl⟩
          rw [rounded_of_integral? hrange hplace, admits_ofIntegral_iff hrange hi,
            allows_of_integral?_float hfinite hplace]
          simp [Literal.exactCompare?, hfinite]
      | false =>
          have hplace : Coordinate.integral? role s (.literal (.float d)) = none := by
            simp [Coordinate.integral?, hfinite]
          rw [rounded_of_integral?_eq_none hplace, admits_finite_iff]
          simp only [Literal.compare?, Literal.exactCompare?, hfinite, Bool.false_eq_true, if_false]
          cases hnan : d.isNaN with
          | true => simp [Double.compare?, hnan]
          | false =>
              -- Rounding the value to a double does not matter next to an infinity.
              rw [Double.compare?_infinite (Double.isFinite_ofInt i)
                (Double.isInfinite_of_not_isFinite hnan hfinite)]
              simp

/-- Over an integral domain no endpoint stands at a finite double. -/
theorem on_rounded_of_integral {domain : Domain}
    (hrange : domain.type.integralRange? = some (least, greatest)) (l : Literal) :
    (rounded domain role s (.literal l)).On role fun c => c.isFiniteFloat = false := by
  cases hplace : Coordinate.integral? role s (.literal l) with
  | some place =>
      rw [rounded_of_integral? hrange hplace]
      exact on_ofIntegral fun i => rfl
  | none =>
      rw [rounded_of_integral?_eq_none hplace]
      refine ⟨rfl, ?_⟩
      cases l with
      | float d =>
          cases hfinite : d.isFinite with
          | true =>
              simp only [Coordinate.integral?, hfinite, if_true] at hplace
              split at hplace
              · exact absurd hplace (by simp)
              · split at hplace <;> exact absurd hplace (by simp)
          | false => exact hfinite
      | _ => rfl

/-- A rounded endpoint stands at the coordinate or at an integer. -/
theorem on_rounded (domain : Domain) {l : Literal} (hl : S l) (hS : ∀ i, S (.int i)) :
    (rounded domain role s (.literal l)).On role S := by
  cases hrange : domain.type.integralRange? with
  | none =>
      rw [rounded_of_integralRange?_eq_none hrange]
      exact ⟨rfl, hl⟩
  | some range =>
      cases hplace : Coordinate.integral? role s (.literal l) with
      | none =>
          rw [rounded_of_integral?_eq_none hplace]
          exact ⟨rfl, hl⟩
      | some place =>
          rw [rounded_of_integral? hrange hplace]
          exact on_ofIntegral hS

/-- Whether a coordinate has a place among the integers does not depend on the endpoint. -/
theorem integral?_eq_none_of {c : Coordinate} (h : c.integral? role s = none) (side : Role)
    (s' : Strictness) : c.integral? side s' = none := by
  unfold Coordinate.integral? at h ⊢
  split at h
  · exact absurd h (by simp)
  · split at h
    · split at h
      · exact absurd h (by simp)
      · cases role <;> exact absurd h (by simp)
    · next hfinite => simp [hfinite]
  · rfl

/-- Where a rounded endpoint stands, a closed one stays on either side. -/
theorem rounded_of_settled {domain : Domain} {l : Literal} {r : Role} {s' : Strictness}
    {c : Coordinate} (h : rounded domain role s (.literal l) = finite r s' c) (side : Role) :
    rounded domain side .closed c = finite side .closed c := by
  cases hrange : domain.type.integralRange? with
  | none => exact rounded_of_integralRange?_eq_none hrange
  | some range =>
      obtain ⟨least, greatest⟩ := range
      obtain ⟨hlow, -, hhigh⟩ := domain.type.integralRange?_bounds hrange
      cases hplace : Coordinate.integral? role s (.literal l) with
      | none =>
          rw [rounded_of_integral?_eq_none hplace] at h
          obtain ⟨-, -, rfl⟩ := Endpoint.finite.inj h
          exact rounded_of_integral?_eq_none (integral?_eq_none_of hplace side .closed)
      | some place =>
          obtain ⟨value, t⟩ := place
          rw [rounded_of_integral? hrange hplace] at h
          rcases ofIntegral_cases least greatest role t value with
            ⟨-, heq⟩ | ⟨-, -, heq⟩ | ⟨hmiss, hexceed, heq⟩
          · cases role <;> exact absurd (heq.symm.trans h) (by simp [blocked, free, Role.opposite])
          · cases role <;> exact absurd (heq.symm.trans h) (by simp [free])
          · obtain ⟨-, -, rfl⟩ := Endpoint.finite.inj (heq.symm.trans h)
            have hvalue := bounds_of_inside hmiss hexceed
            have hint : (Int64.ofInt value).toInt = value :=
              Int64.toInt_ofInt_of_le (by omega) (by omega)
            rw [show rounded domain side .closed (.literal (.int (Int64.ofInt value)))
              = ofIntegral least greatest side .closed value from
                rounded_of_integral? hrange (by rw [Coordinate.integral?, hint])]
            -- A closed endpoint at an integer of the domain neither misses it nor exceeds it.
            rcases ofIntegral_cases least greatest side .closed value with
              ⟨hmiss, -⟩ | ⟨hexceed, -, -⟩ | ⟨-, -, hinside⟩
            · cases side <;> simp [Misses] at hmiss <;> omega
            · cases side <;> simp only [Exceeds] at hexceed <;> omega
            · exact hinside

end Endpoint

end QueryAnalysis
