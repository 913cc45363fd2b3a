import Mathlib.Order.Monotone.Basic
import QueryAnalysis.Proofs.Range.Rounding

/-!
# Integers among doubles

An integer meets a double as the double nearest to it, and this is not the order of exact numbers, as
neighbouring integers beyond 2 ^ 53 can meet as one double. Next to doubles of lesser magnitude it is.
An integer below 2 ^ 53 is a double itself (`Double.unitsOf_nearestMagnitude`), and any other stays at
2 ^ 53 or beyond when it is rounded (`Double.le_unitsOf_nearestMagnitude`), so it lies on the same side
of these doubles before and after.

So null, the integers and the doubles below 2 ^ 53 (`Literal.IsExact`) are ordered by their values
(`Literal.compare?_exactPlace`), and an integer may be compared with all of them
(`Literal.orderedAt_int`).
-/

namespace QueryAnalysis

namespace Double

/-! ### Units of magnitudes -/

theorem exponentWeight_eq : exponentWeight = 2 ^ 52 := by
  decide

theorem unitsOf_of_lt {fraction : Nat} (h : fraction < exponentWeight) :
    unitsOf fraction = fraction := by
  simp only [unitsOf, Nat.div_eq_of_lt h, Nat.mod_eq_of_lt h, if_true]

/-- A magnitude with an exponent field. -/
theorem unitsOf_of_exponent (exponent : Nat) {fraction : Nat} (h : fraction < exponentWeight) :
    unitsOf (exponentWeight * (exponent + 1) + fraction)
      = (fraction + exponentWeight) * 2 ^ exponent := by
  have hpos : 0 < exponentWeight := by decide
  simp only [unitsOf, Nat.mul_add_div hpos, Nat.mul_add_mod, Nat.div_eq_of_lt h, Nat.mod_eq_of_lt h,
    Nat.add_zero, Nat.add_sub_cancel, Nat.shiftLeft_eq, Nat.add_one_ne_zero, if_false]

/-- Of two magnitudes the greater one is worth more. -/
theorem strictMono_unitsOf : StrictMono unitsOf := by
  refine strictMono_nat_of_lt_succ fun m => ?_
  have hfraction : m % exponentWeight < exponentWeight := Nat.mod_lt _ (by decide)
  rw [← Nat.div_add_mod m exponentWeight]
  generalize m % exponentWeight = fraction at hfraction
  generalize m / exponentWeight = exponent
  rw [Nat.add_assoc]
  by_cases hcarry : fraction + 1 < exponentWeight
  · cases exponent with
    | zero =>
        simp only [Nat.mul_zero, Nat.zero_add, unitsOf_of_lt hfraction, unitsOf_of_lt hcarry]
        exact Nat.lt_succ_self fraction
    | succ exponent =>
        rw [unitsOf_of_exponent exponent hfraction, unitsOf_of_exponent exponent hcarry]
        exact Nat.mul_lt_mul_of_pos_right (by omega) (Nat.two_pow_pos exponent)
  · -- The fraction overflows into the exponent.
    have hnext : exponentWeight * exponent + (fraction + 1)
        = exponentWeight * (exponent + 1) + 0 := by
      rw [Nat.mul_succ]
      omega
    rw [hnext, unitsOf_of_exponent exponent (by decide)]
    cases exponent with
    | zero =>
        rw [Nat.mul_zero, Nat.zero_add, unitsOf_of_lt hfraction, Nat.pow_zero]
        omega
    | succ exponent =>
        rw [unitsOf_of_exponent exponent hfraction, Nat.pow_succ', ← Nat.mul_assoc]
        exact Nat.mul_lt_mul_of_pos_right (by omega) (Nat.two_pow_pos exponent)

theorem unitsOf_eq_zero_iff {m : Nat} : unitsOf m = 0 ↔ m = 0 :=
  strictMono_unitsOf.injective.eq_iff' rfl

/-- The order of doubles is that of their values. -/
theorem compare_rank (a b : Double) : compare a.rank b.rank = compare a.units b.units := by
  have hlt : unitsOf a.magnitude < unitsOf b.magnitude ↔ a.magnitude < b.magnitude :=
    strictMono_unitsOf.lt_iff_lt
  have hgt : unitsOf b.magnitude < unitsOf a.magnitude ↔ b.magnitude < a.magnitude :=
    strictMono_unitsOf.lt_iff_lt
  have ha := unitsOf_eq_zero_iff (m := a.magnitude)
  have hb := unitsOf_eq_zero_iff (m := b.magnitude)
  have hranks : a.rank < b.rank ↔ a.units < b.units := by
    unfold rank units
    split <;> split <;> omega
  have hranks' : b.rank < a.rank ↔ b.units < a.units := by
    unfold rank units
    split <;> split <;> omega
  rcases Int.lt_trichotomy a.rank b.rank with h | h | h
  · rw [Int.compare_eq_lt.mpr h, Int.compare_eq_lt.mpr (hranks.mp h)]
  · have hunits : a.units = b.units := by omega
    rw [h, hunits, Std.ReflOrd.compare_self, Std.ReflOrd.compare_self]
  · rw [Int.compare_eq_gt.mpr h, Int.compare_eq_gt.mpr (hranks'.mp h)]

theorem compare?_of_isFinite {a b : Double} (ha : a.isFinite = true) (hb : b.isFinite = true) :
    a.compare? b = some (compare a.units b.units) := by
  rw [compare?_of_isNaN_eq_false (isNaN_eq_false_of_isFinite ha) (isNaN_eq_false_of_isFinite hb),
    compare_rank]

/-! ### Nearest doubles -/

/-- How many units there are in one, as a power of two of which `52` places are set apart. -/
theorem exists_unitsPerOne_eq_pow : ∃ t ≤ 1022, unitsPerOne = 2 ^ (52 + t) := by
  obtain ⟨t, ht, hunits⟩ : ∃ t ≤ 1022, unitsPerOne = 1 <<< (52 + t) :=
    ⟨1022, Nat.le_refl 1022, rfl⟩
  exact ⟨t, ht, hunits.trans (Nat.one_shiftLeft _)⟩

/-- Nothing is rounded if nothing is left over. -/
theorem divNearest_mul {quotient den : Nat} (h : 0 < den) :
    divNearest (quotient * den) den = quotient := by
  simp only [divNearest, Nat.mul_div_cancel _ h, Nat.mul_mod_left, Nat.mul_zero, h, if_true]

theorem le_divNearest (num den : Nat) : num / den ≤ divNearest num den := by
  unfold divNearest
  simp only
  split
  · exact Nat.le_refl _
  · split <;> omega

theorem log2_mul_pow {n : Nat} (h : n ≠ 0) (k : Nat) : (n * 2 ^ k).log2 = n.log2 + k := by
  have hpos := Nat.two_pow_pos k
  refine (Nat.log2_eq_iff (Nat.mul_ne_zero h hpos.ne')).mpr ⟨?_, ?_⟩
  · rw [Nat.pow_add]
    exact Nat.mul_le_mul_right _ (Nat.log2_self_le h)
  · rw [Nat.add_right_comm, Nat.pow_add]
    exact Nat.mul_lt_mul_of_pos_right Nat.lt_log2_self hpos

/-- An integer below 2 ^ 53 is a double. -/
theorem unitsOf_nearestMagnitude {n : Nat} (h : n < 2 ^ 53) :
    unitsOf (nearestMagnitude n 1) = n * unitsPerOne := by
  obtain ⟨t, ht, hunits⟩ := exists_unitsPerOne_eq_pow
  rcases Nat.eq_zero_or_pos n with rfl | hpos
  · rw [nearestMagnitude, Nat.zero_mul]
    decide
  have hn : n ≠ 0 := by omega
  have hk : n.log2 < 53 := (Nat.log2_lt hn).mpr h
  -- The last place is worth no more than one, so the integer is a multiple of it.
  have hexact : n * unitsPerOne = n * 2 ^ (52 - n.log2) * 2 ^ (n.log2 + t) := by
    rw [hunits, Nat.mul_assoc, ← Nat.pow_add, show 52 - n.log2 + (n.log2 + t) = 52 + t by omega]
  have hlog : (n * unitsPerOne).log2 - 52 = n.log2 + t := by
    rw [hunits, log2_mul_pow hn]
    omega
  have hlow : exponentWeight ≤ n * 2 ^ (52 - n.log2) := by
    have h52 : exponentWeight = 2 ^ n.log2 * 2 ^ (52 - n.log2) := by
      rw [← Nat.pow_add, Nat.add_sub_cancel' (by omega), exponentWeight_eq]
    rw [h52]
    exact Nat.mul_le_mul_right _ (Nat.log2_self_le hn)
  have hhigh : n * 2 ^ (52 - n.log2) < 2 * exponentWeight := by
    have h53 : 2 * exponentWeight = 2 ^ (n.log2 + 1) * 2 ^ (52 - n.log2) := by
      rw [← Nat.pow_add, show n.log2 + 1 + (52 - n.log2) = 1 + 52 by omega, Nat.pow_add,
        exponentWeight_eq, Nat.pow_one]
    rw [h53]
    exact Nat.mul_lt_mul_of_pos_right Nat.lt_log2_self (Nat.two_pow_pos _)
  have hmagnitude : nearestMagnitude n 1 = exponentWeight * (n.log2 + t + 1) +
      (n * 2 ^ (52 - n.log2) - exponentWeight) := by
    simp only [nearestMagnitude, Nat.div_one, hlog, Nat.one_shiftLeft]
    rw [hexact, divNearest_mul (Nat.two_pow_pos _), Nat.mul_comm (n.log2 + t)]
    unfold infinityMagnitude exponentWeight at *
    omega
  rw [hmagnitude, unitsOf_of_exponent _ (by omega), Nat.sub_add_cancel hlow, hexact]

/-- Any other integer stays at 2 ^ 53 or beyond. -/
theorem le_unitsOf_nearestMagnitude {n : Nat} (h : 2 ^ 53 ≤ n) :
    2 ^ 53 * unitsPerOne ≤ unitsOf (nearestMagnitude n 1) := by
  obtain ⟨t, ht, hunits⟩ := exists_unitsPerOne_eq_pow
  have hn : n ≠ 0 := by
    rintro rfl
    exact absurd h (by decide)
  have hk : 53 ≤ n.log2 := (Nat.le_log2 hn).mpr h
  have hlog : (n * unitsPerOne).log2 - 52 = n.log2 + t := by
    rw [hunits, log2_mul_pow hn]
    omega
  have hquotient : exponentWeight ≤ n * unitsPerOne / 2 ^ (n.log2 + t) := by
    rw [Nat.le_div_iff_mul_le (Nat.two_pow_pos _), hunits]
    calc exponentWeight * 2 ^ (n.log2 + t) = 2 ^ n.log2 * 2 ^ (52 + t) := by
          rw [exponentWeight_eq, ← Nat.pow_add, ← Nat.pow_add, Nat.add_left_comm]
      _ ≤ n * 2 ^ (52 + t) := Nat.mul_le_mul_right _ (Nat.log2_self_le hn)
  have hdiv := le_divNearest (n * unitsPerOne) (2 ^ (n.log2 + t))
  have hmagnitude : exponentWeight * (53 + t + 1) + 0 ≤ nearestMagnitude n 1 := by
    simp only [nearestMagnitude, Nat.div_one, hlog, Nat.one_shiftLeft]
    unfold infinityMagnitude exponentWeight at *
    omega
  calc 2 ^ 53 * unitsPerOne = (0 + exponentWeight) * 2 ^ (53 + t) := by
        rw [hunits, Nat.zero_add, exponentWeight_eq, ← Nat.pow_add, ← Nat.pow_add,
          Nat.add_left_comm]
    _ = unitsOf (exponentWeight * (53 + t + 1) + 0) := (unitsOf_of_exponent _ (by decide)).symm
    _ ≤ unitsOf (nearestMagnitude n 1) := strictMono_unitsOf.monotone hmagnitude

theorem isNegative_ofMagnitude {negative : Bool} {m : Nat} (h : m < signWeight) :
    (ofMagnitude negative m).isNegative = negative := by
  unfold signWeight at h
  simp only [ofMagnitude, isNegative, signWeight, UInt64.toNat_ofNat']
  cases negative <;> simp <;> omega

theorem units_ofMagnitude {negative : Bool} {m : Nat} (h : m < signWeight) :
    (ofMagnitude negative m).units = if negative then -(unitsOf m : Int) else unitsOf m := by
  rw [units, isNegative_ofMagnitude h, magnitude_ofMagnitude h]

/-- The value of the double nearest to an integer of 64 bits. -/
theorem units_ofInt (i : Int64) :
    (ofInt i.toInt).units = if i.toInt < 0 then -(unitsOf (nearestMagnitude i.toInt.natAbs 1) : Int)
      else unitsOf (nearestMagnitude i.toInt.natAbs 1) := by
  have hlow := i.le_toInt
  have hhigh := i.toInt_lt
  have hlt : nearestMagnitude i.toInt.natAbs 1 < infinityMagnitude :=
    nearestMagnitude_lt (by omega)
  rw [ofInt, nearest, units_ofMagnitude (Nat.lt_trans hlt infinityMagnitude_lt_signWeight)]
  simp only [decide_eq_true_eq]

/-- An integer below 2 ^ 53 keeps its value. -/
theorem units_ofInt_of_lt {i : Int64} (h : i.toInt.natAbs < 2 ^ 53) :
    (ofInt i.toInt).units = i.toInt * (unitsPerOne : Int) := by
  rw [units_ofInt, unitsOf_nearestMagnitude h, Int.natCast_mul]
  split
  · next hneg => rw [Int.ofNat_natAbs_of_nonpos (by omega), ← Int.neg_mul, Int.neg_neg]
  · next hneg => rw [Int.natAbs_of_nonneg (by omega)]

/-- Next to a double below 2 ^ 53 it does not matter that an integer is rounded. -/
theorem compare_units_ofInt (i : Int64) {d : Double}
    (hd : d.units.natAbs < 2 ^ 53 * unitsPerOne) :
    compare (ofInt i.toInt).units d.units = compare (i.toInt * (unitsPerOne : Int)) d.units := by
  have hunits := units_ofInt i
  rcases Nat.lt_or_ge i.toInt.natAbs (2 ^ 53) with hsmall | hlarge
  · rw [units_ofInt_of_lt hsmall]
  · -- The integer and its double lie beyond all doubles below 2 ^ 53, on one side of them.
    have hrounded := le_unitsOf_nearestMagnitude hlarge
    have hproduct : 2 ^ 53 * unitsPerOne ≤ (i.toInt * (unitsPerOne : Int)).natAbs := by
      rw [Int.natAbs_mul, Int.natAbs_natCast]
      exact Nat.mul_le_mul_right _ hlarge
    by_cases hneg : i.toInt < 0
    · rw [if_pos hneg] at hunits
      have hsign : i.toInt * (unitsPerOne : Int) ≤ 0 :=
        Int.mul_nonpos_of_nonpos_of_nonneg (by omega) (by omega)
      rw [Int.compare_eq_lt.mpr (by omega), Int.compare_eq_lt.mpr (by omega)]
    · rw [if_neg hneg] at hunits
      have hsign : 0 ≤ i.toInt * (unitsPerOne : Int) := Int.mul_nonneg (by omega) (by omega)
      rw [Int.compare_eq_gt.mpr (by omega), Int.compare_eq_gt.mpr (by omega)]

end Double

/-! ### Exact literals -/

namespace Literal

/-- Null, an integer, or a finite double of a magnitude below 2 ^ 53. -/
def IsExact : Literal → Prop
  | null => True
  | int _ => True
  | float d => d.isFinite = true ∧ d.units.natAbs < 2 ^ 53 * Double.unitsPerOne
  | _ => False

/-- The value of an exact number, in units of the smallest positive double. -/
def exactPlace : Literal → Int
  | int i => i.toInt * (Double.unitsPerOne : Int)
  | float d => d.units
  | _ => 0

/-- Exact numbers are ordered by their values. -/
theorem compare?_exactPlace {a b : Literal} (ha : a.IsExact) (hb : b.IsExact) (hna : a ≠ null)
    (hnb : b ≠ null) : a.compare? b = some (compare a.exactPlace b.exactPlace) := by
  have hmixed : ∀ (i : Int64) {d : Double}, (float d).IsExact →
      (int i).compare? (float d) = some (compare (int i).exactPlace (float d).exactPlace) := by
    intro i d hd
    rw [compare?, Double.compare?_of_isFinite (Double.isFinite_ofInt i) hd.1,
      Double.compare_units_ofInt i hd.2]
    rfl
  cases a with
  | null => exact absurd rfl hna
  | int i =>
      cases b with
      | null => exact absurd rfl hnb
      | int j => exact congrArg some (compare_mul_right Double.unitsPerOne_pos).symm
      | float d => exact hmixed i hb
      | _ => exact hb.elim
  | float c =>
      cases b with
      | null => exact absurd rfl hnb
      | int j => rw [compare?_swap, hmixed j ha, Option.map_some, ← Std.OrientedOrd.eq_swap]
      | float d => exact Double.compare?_of_isFinite ha.1 hb.1
      | _ => exact hb.elim
  | _ => exact ha.elim

/-- An integer meets an exact number as an exact number. -/
theorem compare?_eq_exactCompare? (i : Int64) {l : Literal} (hl : l.IsExact) (hnull : l ≠ null) :
    (int i).compare? l = (int i).exactCompare? l := by
  rw [compare?_exactPlace (a := int i) trivial hl (by simp) hnull]
  cases l with
  | null => exact absurd rfl hnull
  | int j => exact congrArg some (compare_mul_right Double.unitsPerOne_pos)
  | float d => rw [exactCompare?, if_pos hl.1, exactPlace, exactPlace]
  | _ => exact hl.elim

/-- Exact literals can all be compared. -/
theorem IsExact.compare?_ne_none {a b : Literal} (ha : a.IsExact) (hb : b.IsExact) :
    a.compare? b ≠ none := by
  refine compare?_ne_none_of fun hna hnb => ?_
  rw [compare?_exactPlace ha hb hna hnb]
  exact Option.some_ne_none _

/-- An integer may be compared with exact literals. -/
theorem orderedAt_int (i : Int64) : (int i).OrderedAt IsExact where
  mem := trivial
  ne_null := by simp
  mem_null := trivial
  compare?_ne_none := IsExact.compare?_ne_none
  coherent :=
    coherentAt_of_place
      (fun a b ha hb hna hnb =>
        compare?_exactPlace ha hb (ne_null_of_isNumber hna) (ne_null_of_isNumber hnb)) trivial

end Literal

end QueryAnalysis
