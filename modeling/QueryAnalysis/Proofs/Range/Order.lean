import Mathlib.Tactic.NormNum
import QueryAnalysis.Range.Endpoint

/-!
# The order of literals

`Literal.compare?` is no partial order on all literals: an integer meets a finite double after
rounding, so that two integers can both equal a double that they surround. Comparing one value with
several coordinates is safe in two cases, and they are the ones that ranges need. Null may be
compared with anything (`coherentAt_null`), and a value may be compared with literals among which no
integer meets a finite double (`Uniform.coherentAt`).

Lower and upper bounds are treated as one: `Role.inward` is how a value inside compares with the
coordinate of an endpoint on that side.
-/

namespace QueryAnalysis

/-! ### Sides -/

namespace Role

/-- How a value on the inner side of an endpoint's coordinate compares with it. -/
def inward : Role → Ordering
  | lower => .gt
  | upper => .lt

/-- How a value on the outer side of an endpoint's coordinate compares with it. -/
def outward : Role → Ordering
  | lower => .lt
  | upper => .gt

/-- The other side of an interval. -/
def opposite : Role → Role
  | lower => upper
  | upper => lower

@[simp] theorem swap_inward (role : Role) : role.inward.swap = role.outward := by
  cases role <;> rfl

@[simp] theorem swap_outward (role : Role) : role.outward.swap = role.inward := by
  cases role <;> rfl

/-- A comparison goes inward, outward or neither way. -/
theorem ordering_cases (role : Role) (x : Ordering) :
    x = role.inward ∨ x = .eq ∨ x = role.outward := by
  cases role <;> cases x <;> simp [inward, outward]

theorem inward_ne_outward (role : Role) : role.inward ≠ role.outward := by
  cases role <;> decide

end Role

/-- In a total order two steps that do not go outward compose. -/
theorem compare_then {β : Type} [Ord β] [Std.TransOrd β] (role : Role) {a b c : β}
    (hab : compare a b ≠ role.outward) (hbc : compare b c ≠ role.outward) :
    compare a c = (compare a b).then (compare b c) := by
  cases role with
  | upper =>
      cases hx : compare a b with
      | gt => exact absurd hx hab
      | eq => exact Std.TransCmp.congr_left hx
      | lt =>
          cases hy : compare b c with
          | gt => exact absurd hy hbc
          | eq => exact Std.TransCmp.lt_of_lt_of_eq hx hy
          | lt => exact Std.TransCmp.lt_trans hx hy
  | lower =>
      cases hx : compare a b with
      | lt => exact absurd hx hab
      | eq => exact Std.TransCmp.congr_left hx
      | gt =>
          cases hy : compare b c with
          | lt => exact absurd hy hbc
          | eq => exact Std.TransCmp.gt_of_gt_of_eq hx hy
          | gt => exact Std.TransCmp.gt_trans hx hy

/-! ### Doubles -/

namespace Double

theorem compare?_swap (a b : Double) : b.compare? a = (a.compare? b).map Ordering.swap := by
  unfold compare?
  rw [Bool.or_comm]
  split
  · rfl
  · rw [Option.map_some, ← Std.OrientedOrd.eq_swap]

theorem magnitude_ofMagnitude {negative : Bool} {m : Nat} (h : m < signWeight) :
    (ofMagnitude negative m).magnitude = m := by
  unfold signWeight at h
  simp only [ofMagnitude, magnitude, signWeight, UInt64.toNat_ofNat']
  cases negative <;> simp <;> omega

theorem infinityMagnitude_lt_signWeight : infinityMagnitude < signWeight := by
  decide

theorem divNearest_le (num den : Nat) : divNearest num den ≤ num / den + 1 := by
  unfold divNearest
  simp only
  have := Nat.mod_lt (num / den) (show 0 < 2 by decide)
  split
  · omega
  · split <;> omega

/-- How many units there are in one, with a bound on the exponent in place of its value, so that
nothing evaluates the power. -/
theorem exists_unitsPerOne_eq : ∃ k ≤ 1074, unitsPerOne = 1 <<< k :=
  ⟨1074, Nat.le_refl 1074, rfl⟩

/-- The integers of 64 bits are far from infinity. -/
theorem nearestMagnitude_lt {n : Nat} (h : n < 2 ^ 64) : nearestMagnitude n 1 < infinityMagnitude := by
  obtain ⟨k, hk, hunits⟩ := exists_unitsPerOne_eq
  have hexact : n * unitsPerOne < 2 ^ (64 + k) := by
    rw [hunits, Nat.one_shiftLeft, Nat.pow_add]
    exact Nat.mul_lt_mul_of_pos_right h (Nat.two_pow_pos k)
  have hlog : (n * unitsPerOne).log2 < 64 + k := by
    rcases Nat.eq_zero_or_pos (n * unitsPerOne) with h0 | hpos
    · rw [h0, Nat.log2_zero]
      omega
    · exact (Nat.log2_lt (by omega)).mpr hexact
  -- 53 bits remain above the last place.
  have hquotient : n * unitsPerOne / 1 <<< ((n * unitsPerOne).log2 - 52) < 2 ^ 53 := by
    rw [Nat.one_shiftLeft, Nat.div_lt_iff_lt_mul (Nat.two_pow_pos _), ← Nat.pow_add]
    refine Nat.lt_of_lt_of_le Nat.lt_log2_self (Nat.pow_le_pow_right (by decide) ?_)
    omega
  have hround := divNearest_le (n * unitsPerOne) (1 <<< ((n * unitsPerOne).log2 - 52))
  simp only [nearestMagnitude, Nat.div_one]
  refine Nat.lt_of_le_of_lt (Nat.min_le_left _ _) ?_
  unfold infinityMagnitude exponentWeight at *
  omega

/-- The double nearest to an integer of 64 bits, with or without a sign, is finite. -/
theorem isFinite_ofInt_of_lt {i : Int} (h : i.natAbs < 2 ^ 64) : (ofInt i).isFinite = true := by
  have hlt : nearestMagnitude i.natAbs 1 < infinityMagnitude := nearestMagnitude_lt h
  unfold isFinite ofInt nearest
  rw [magnitude_ofMagnitude (Nat.lt_trans hlt infinityMagnitude_lt_signWeight)]
  exact decide_eq_true hlt

theorem isFinite_ofInt (i : Int64) : (ofInt i.toInt).isFinite = true := by
  have hlow := i.le_toInt
  have hhigh := i.toInt_lt
  exact isFinite_ofInt_of_lt (by omega)

/-- An infinity lies beyond every finite double. -/
theorem compare?_infinite {a b : Double} (ha : a.isFinite = true) (hb : b.isInfinite = true) :
    a.compare? b = some (if b.isNegative then .gt else .lt) := by
  rw [compare?_of_isNaN_eq_false (isNaN_eq_false_of_isFinite ha) (isNaN_eq_false_of_isInfinite hb)]
  have ha := of_decide_eq_true ha
  have hb := of_decide_eq_true hb
  simp only [rank, Option.some.injEq, hb]
  have hpos : 0 < infinityMagnitude := by decide
  split <;> split <;>
    first
    | exact Int.compare_eq_gt.mpr (by omega)
    | exact Int.compare_eq_lt.mpr (by omega)

/-- A number is finite or infinite. -/
theorem isInfinite_of_not_isFinite {d : Double} (hnan : d.isNaN = false) (h : d.isFinite = false) :
    d.isInfinite = true := by
  have hnan := of_decide_eq_false hnan
  have h := of_decide_eq_false h
  exact decide_eq_true (by omega)

end Double

/-! ### Literals -/

namespace Literal

theorem compare?_swap (a b : Literal) : b.compare? a = (a.compare? b).map Ordering.swap := by
  cases a with
  | null => cases b <;> rfl
  | boolean p =>
      cases b with
      | boolean q => exact congrArg some Std.OrientedOrd.eq_swap
      | _ => rfl
  | int i =>
      cases b with
      | int j => exact congrArg some Std.OrientedOrd.eq_swap
      | float d => exact Double.compare?_swap _ _
      | _ => rfl
  | float c =>
      cases b with
      | int j | float d => exact Double.compare?_swap _ _
      | _ => rfl
  | string s =>
      cases b with
      | string t => exact congrArg some Std.OrientedOrd.eq_swap
      | _ => rfl

/-- Whether the literal is an integer. -/
def isInt : Literal → Bool
  | int _ => true
  | _ => false

/-- Whether the literal is a finite double. -/
def isFiniteFloat : Literal → Bool
  | float value => value.isFinite
  | _ => false

/-- Among these literals no integer meets a finite double. -/
def Uniform (S : Literal → Prop) : Prop :=
  (∀ c, S c → c.isFiniteFloat = false) ∨ ∀ c, S c → c.isInt = false

/-- Steps from a value through these literals that do not go outward compose. -/
def CoherentAt (v : Literal) (S : Literal → Prop) : Prop :=
  ∀ (role : Role) {c c' : Literal} {x y : Ordering}, S c → S c' → v.compare? c = some x →
    c.compare? c' = some y → x ≠ role.outward → y ≠ role.outward → v.compare? c' = some (x.then y)

theorem compare?_null_left {b : Literal} (hb : b ≠ null) : null.compare? b = some .lt := by
  cases b with
  | null => exact absurd rfl hb
  | _ => rfl

theorem compare?_null_right {a : Literal} (ha : a ≠ null) : a.compare? null = some .gt := by
  cases a with
  | null => exact absurd rfl ha
  | _ => rfl

/-- Null can be compared with anything. -/
theorem compare?_ne_none_of {a b : Literal} (h : a ≠ null → b ≠ null → a.compare? b ≠ none) :
    a.compare? b ≠ none := by
  by_cases ha : a = null
  · by_cases hb : b = null
    · simp [ha, hb, compare?]
    · simp [ha, compare?_null_left hb]
  · by_cases hb : b = null
    · simp [hb, compare?_null_right ha]
    · exact h ha hb

/-- Only null equals null. -/
theorem eq_null_iff_of_compare?_eq {a b : Literal} (h : a.compare? b = some .eq) :
    a = null ↔ b = null := by
  constructor
  · rintro rfl
    by_contra hb
    exact absurd (h.symm.trans (compare?_null_left hb)) (by decide)
  · rintro rfl
    by_contra ha
    exact absurd (h.symm.trans (compare?_null_right ha)) (by decide)

/-- Literals that are equal in the order are the same if they are whenever neither is null. -/
theorem eq_of_compare?_eq_of_ne_null {a b : Literal} (h : a.compare? b = some .eq)
    (hplain : a ≠ null → b ≠ null → a = b) : a = b := by
  have hnull := eq_null_iff_of_compare?_eq h
  by_cases ha : a = null
  · exact ha.trans (hnull.mp ha).symm
  · exact hplain ha (mt hnull.mpr ha)

/-- Null may be compared with all literals. -/
theorem coherentAt_null (S : Literal → Prop) : CoherentAt null S := by
  intro role c c' x y _ _ hx hy hxo hyo
  by_cases hc : c = null
  · subst hc
    obtain rfl : Ordering.eq = x := by simpa [compare?] using hx
    exact hy
  · -- Null is below `c`, so the steps go up, and `c'` is not null either.
    obtain rfl : Ordering.lt = x := by simpa [compare?_null_left hc] using hx
    by_cases hc' : c' = null
    · subst hc'
      obtain rfl : Ordering.gt = y := by simpa [compare?_null_right hc] using hy
      cases role with
      | lower => exact absurd rfl hxo
      | upper => exact absurd rfl hyo
    · exact compare?_null_left hc'

/-- Whether the literal is an integer or a double that is a number. -/
def isNumber : Literal → Bool
  | int _ => true
  | float value => !value.isNaN
  | _ => false

theorem ne_null_of_isNumber {a : Literal} (h : a.isNumber = true) : a ≠ null := by
  intro hnull
  rw [hnull] at h
  exact absurd h Bool.false_ne_true

/-- A number among the doubles that is not finite is an infinity. -/
theorem isInfinite_of_isNumber {d : Double} (hnumber : (float d).isNumber = true)
    (h : (float d).isFiniteFloat = false) : d.isInfinite = true :=
  Double.isInfinite_of_not_isFinite (by simpa [isNumber] using hnumber) h

/-- The place of a number on a line on which the infinities stand outside the integers. -/
def integerPlace : Literal → Int
  | int value => value.toInt
  | float value => if value.isNegative then -2 ^ 64 else 2 ^ 64
  | _ => 0

/-- The place of a double on the number line. -/
def floatPlace : Literal → Int
  | float value => value.rank
  | _ => 0

theorem compare?_integerPlace {a b : Literal} (ha : a.isNumber = true) (hb : b.isNumber = true)
    (ha' : a.isFiniteFloat = false) (hb' : b.isFiniteFloat = false) :
    a.compare? b = some (compare a.integerPlace b.integerPlace) := by
  have hint : ∀ {i : Int64} {d : Double}, d.isInfinite = true →
      (int i).compare? (float d)
        = some (compare (int i).integerPlace (float d).integerPlace) := by
    intro i d hd
    have hlow := i.le_toInt
    have hhigh := i.toInt_lt
    rw [compare?, Double.compare?_infinite (Double.isFinite_ofInt i) hd]
    simp only [integerPlace]
    split
    · rw [Int.compare_eq_gt.mpr (by omega)]
    · rw [Int.compare_eq_lt.mpr (by omega)]
  -- A double that is not finite is an infinity, and those compare by their signs.
  cases a with
  | int i =>
      cases b with
      | int j => rfl
      | float d => exact hint (isInfinite_of_isNumber hb hb')
      | _ => exact absurd hb Bool.false_ne_true
  | float c =>
      cases b with
      | int j =>
          rw [compare?_swap, hint (isInfinite_of_isNumber ha ha'), Option.map_some, ← Std.OrientedOrd.eq_swap]
      | float d =>
          have hc := isInfinite_of_isNumber ha ha'
          have hd := isInfinite_of_isNumber hb hb'
          have hrank : ∀ {d : Double}, d.isInfinite = true →
              d.rank = if d.isNegative then -(Double.infinityMagnitude : Int)
                else Double.infinityMagnitude := by
            intro d hd
            rw [Double.rank, of_decide_eq_true hd]
          rw [compare?, Double.compare?_of_isNaN_eq_false (Double.isNaN_eq_false_of_isInfinite hc)
            (Double.isNaN_eq_false_of_isInfinite hd), hrank hc, hrank hd]
          simp only [integerPlace]
          cases c.isNegative <;> cases d.isNegative <;> rfl
      | _ => exact absurd hb Bool.false_ne_true
  | _ => exact absurd ha Bool.false_ne_true

theorem compare?_floatPlace {a b : Literal} (ha : a.isNumber = true) (hb : b.isNumber = true)
    (ha' : a.isInt = false) (hb' : b.isInt = false) :
    a.compare? b = some (compare a.floatPlace b.floatPlace) := by
  cases a with
  | float c =>
      cases b with
      | float d =>
          simp only [isNumber, Bool.not_eq_true'] at ha hb
          exact Double.compare?_of_isNaN_eq_false ha hb
      | int j => exact absurd hb'.symm Bool.false_ne_true
      | _ => exact absurd hb Bool.false_ne_true
  | int i => exact absurd ha'.symm Bool.false_ne_true
  | _ => exact absurd ha Bool.false_ne_true

/-- The numbers of a uniform set stand on a line of integers. -/
theorem Uniform.exists_place {S : Literal → Prop} (hS : Uniform S) :
    ∃ place : Literal → Int, ∀ a b, S a → S b → a.isNumber = true → b.isNumber = true →
      a.compare? b = some (compare (place a) (place b)) := by
  rcases hS with hS | hS
  · exact ⟨integerPlace, fun a b ha hb hna hnb => compare?_integerPlace hna hnb (hS a ha) (hS b hb)⟩
  · exact ⟨floatPlace, fun a b ha hb hna hnb => compare?_floatPlace hna hnb (hS a ha) (hS b hb)⟩

/-- Literals other than null that can be compared are of one family. -/
theorem family_of_compare? {a b : Literal} {x : Ordering} (h : a.compare? b = some x)
    (ha : a ≠ null) (hb : b ≠ null) :
    (∃ p q, a = boolean p ∧ b = boolean q) ∨ (∃ s t, a = string s ∧ b = string t) ∨
      (a.isNumber = true ∧ b.isNumber = true) := by
  have hnan : ∀ {c d : Double}, c.compare? d = some x → c.isNaN = false ∧ d.isNaN = false := by
    intro c d h
    unfold Double.compare? at h
    split at h
    · exact absurd h (by simp)
    · next hnan => simpa using hnan
  -- What remains are the pairs of numbers with a double among them.
  cases a <;> cases b <;> simp_all [compare?, isNumber]
  · exact (hnan h).2
  · exact (hnan h).1
  · exact hnan h

/-- Two steps compose if one of them leads to null. -/
theorem compare?_then_of_null (role : Role) {v c d : Literal} {x y : Ordering} (hv : v ≠ null)
    (hnull : c = null ∨ d = null) (hx : v.compare? c = some x) (hy : c.compare? d = some y)
    (hxo : x ≠ role.outward) (hyo : y ≠ role.outward) : v.compare? d = some (x.then y) := by
  by_cases hc : c = null
  · subst hc
    obtain rfl : Ordering.gt = x := by simpa [compare?_null_right hv] using hx
    by_cases hd : d = null
    · subst hd
      obtain rfl : Ordering.eq = y := by simpa [compare?] using hy
      exact hx
    · -- Down to null and up again: one of the steps goes outward.
      obtain rfl : Ordering.lt = y := by simpa [compare?_null_left hd] using hy
      cases role with
      | lower => exact absurd rfl hyo
      | upper => exact absurd rfl hxo
  · obtain rfl := hnull.resolve_left hc
    obtain rfl : Ordering.gt = y := by simpa [compare?_null_right hc] using hy
    cases role with
    | lower =>
        rw [compare?_null_right hv]
        cases x with
        | lt => exact absurd rfl hxo
        | eq | gt => rfl
    | upper => exact absurd rfl hyo

/-- Two steps between literals other than null compose, if the numbers among them stand on a line:
then they are steps in one total order. -/
theorem compare?_then_of_place (role : Role) {S : Literal → Prop} {place : Literal → Int}
    {v c d : Literal} {x y : Ordering}
    (hplace : ∀ a b, S a → S b → a.isNumber = true → b.isNumber = true →
      a.compare? b = some (compare (place a) (place b)))
    (hv : S v) (hc : S c) (hd : S d) (hvnull : v ≠ null) (hcnull : c ≠ null) (hdnull : d ≠ null)
    (hx : v.compare? c = some x) (hy : c.compare? d = some y) (hxo : x ≠ role.outward)
    (hyo : y ≠ role.outward) : v.compare? d = some (x.then y) := by
  rcases family_of_compare? hx hvnull hcnull with ⟨p, q, rfl, rfl⟩ | ⟨s, t, rfl, rfl⟩ | ⟨hvn, hcn⟩
  · rcases family_of_compare? hy hcnull hdnull with ⟨_, r, _, rfl⟩ | ⟨_, _, hs, _⟩ | ⟨hn, _⟩
    · obtain rfl := Option.some.inj hx
      obtain rfl := Option.some.inj hy
      exact congrArg some (compare_then role hxo hyo)
    · exact absurd hs (by simp)
    · exact absurd hn Bool.false_ne_true
  · rcases family_of_compare? hy hcnull hdnull with ⟨_, _, hp, _⟩ | ⟨_, u, _, rfl⟩ | ⟨hn, _⟩
    · exact absurd hp (by simp)
    · obtain rfl := Option.some.inj hx
      obtain rfl := Option.some.inj hy
      exact congrArg some (compare_then role hxo hyo)
    · exact absurd hn Bool.false_ne_true
  · rcases family_of_compare? hy hcnull hdnull with ⟨_, _, rfl, _⟩ | ⟨_, _, rfl, _⟩ | ⟨_, hdn⟩
    · exact absurd hcn Bool.false_ne_true
    · exact absurd hcn Bool.false_ne_true
    · rw [hplace v c hv hc hvn hcn] at hx
      rw [hplace c d hc hd hcn hdn] at hy
      obtain rfl := Option.some.inj hx
      obtain rfl := Option.some.inj hy
      rw [hplace v d hv hd hvn hdn]
      exact congrArg some (compare_then role hxo hyo)

/-- A value may be compared with literals of a set that it is in, if the numbers there stand on a
line. -/
theorem coherentAt_of_place {S : Literal → Prop} {place : Literal → Int}
    (hplace : ∀ a b, S a → S b → a.isNumber = true → b.isNumber = true →
      a.compare? b = some (compare (place a) (place b))) {v : Literal} (hv : S v) :
    CoherentAt v S := by
  intro role c d x y hc hd hx hy hxo hyo
  by_cases hvnull : v = null
  · subst hvnull
    exact coherentAt_null S role hc hd hx hy hxo hyo
  by_cases hnull : c = null ∨ d = null
  · exact compare?_then_of_null role hvnull hnull hx hy hxo hyo
  · obtain ⟨hcnull, hdnull⟩ := not_or.mp hnull
    exact compare?_then_of_place role hplace hv hc hd hvnull hcnull hdnull hx hy hxo hyo

/-- A value may be compared with literals among which no integer meets a finite double. -/
theorem Uniform.coherentAt {S : Literal → Prop} (hS : Uniform S) {v : Literal} (hv : S v) :
    CoherentAt v S := by
  obtain ⟨place, hplace⟩ := hS.exists_place
  exact coherentAt_of_place hplace hv

/-- The literals of a set, null and the value among them, can all be compared, and the value may be
compared with all of them. -/
structure OrderedAt (v : Literal) (S : Literal → Prop) : Prop where
  mem : S v
  ne_null : v ≠ null
  mem_null : S null
  compare?_ne_none : ∀ {a b}, S a → S b → a.compare? b ≠ none
  coherent : v.CoherentAt S

/-! ### Literals of one variant -/

/-- Two literals are of one variant, and neither is null or a double that is no number. -/
inductive Alike : Literal → Literal → Prop
  | boolean {p q : Bool} : Alike (.boolean p) (.boolean q)
  | int {i j : Int64} : Alike (.int i) (.int j)
  | float {c d : Double} : c.isNaN = false → d.isNaN = false → Alike (.float c) (.float d)
  | string {s t : String} : Alike (.string s) (.string t)

/-- Null and the literals of a value's variant. -/
def PeerOf (v c : Literal) : Prop :=
  c = null ∨ c.Alike v

theorem Alike.ne_null {a b : Literal} (h : a.Alike b) : b ≠ null := by
  cases h <;> simp

theorem Alike.trans_right {a b c : Literal} (h : a.Alike c) (h' : b.Alike c) : a.Alike b := by
  cases h with
  | boolean => cases h' with | boolean => exact .boolean
  | int => cases h' with | int => exact .int
  | float hc _ => cases h' with | float hd _ => exact .float hc hd
  | string => cases h' with | string => exact .string

theorem Alike.compare?_ne_none {a b : Literal} (h : a.Alike b) : a.compare? b ≠ none := by
  cases h with
  | float hc hd => simp [compare?, Double.compare?, hc, hd]
  | _ => simp [compare?]

/-- Peers of one value can be compared. -/
theorem PeerOf.compare?_ne_none {v a b : Literal} (ha : PeerOf v a) (hb : PeerOf v b) :
    a.compare? b ≠ none :=
  compare?_ne_none_of fun hanull hbnull =>
    ((ha.resolve_left hanull).trans_right (hb.resolve_left hbnull)).compare?_ne_none

/-- A peer of a value equals itself. -/
theorem PeerOf.compare?_self {v a : Literal} (h : PeerOf v a) : a.compare? a = some .eq := by
  rcases h with rfl | h
  · rfl
  · cases h with
    | boolean | int | string => exact congrArg some Std.ReflCmp.compare_self
    | float hnan _ =>
        simp only [compare?, Double.compare?, hnan, Bool.or_self, Bool.false_eq_true, if_false]
        exact congrArg some Std.ReflCmp.compare_self

/-- Among the peers of a value no integer meets a double. -/
theorem uniform_peerOf (v : Literal) : Uniform (PeerOf v) := by
  cases v with
  | float d =>
      right
      rintro c (rfl | hc)
      · rfl
      · cases hc with
        | float => rfl
  | _ =>
      left
      rintro c (rfl | hc)
      · rfl
      · cases hc <;> rfl

/-- A value may be compared with its peers. -/
theorem Alike.orderedAt {v : Literal} (h : v.Alike v) : v.OrderedAt (PeerOf v) where
  mem := .inr h
  ne_null := h.ne_null
  mem_null := .inl rfl
  compare?_ne_none := PeerOf.compare?_ne_none
  coherent := (uniform_peerOf v).coherentAt (.inr h)

end Literal

end QueryAnalysis
