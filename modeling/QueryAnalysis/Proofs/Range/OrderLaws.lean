import Mathlib.Data.Nat.Log
import QueryAnalysis.Proofs.Range.Exact

/-!
# The laws of the order of literals

Comparing two literals the other way round gives the reverse answer, and null is below all others. The
two laws that take a third literal have one exception. Rounding to the nearest double is monotone
(`Double.rank_ofInt_mono`), so it never turns the order of two integers round, but it can merge them:
different integers of magnitude 2 ^ 53 or more may equal one double (`Double.Merges`). Then the integers
differ while each of them equals the double.

Two numbers compare like the places of their doubles (`Literal.roundedPlace`), unless they are merged
integers (`Literal.compare?_place`). From this `Literal.compare?_laws` finds for each law the triples
for which it fails, and they are the ones with two merged integers and their double.
-/

namespace QueryAnalysis

/-! ### Rounding is monotone -/

namespace Double

theorem divNearest_mono {m n : Nat} (den : Nat) (h : m ≤ n) : divNearest m den ≤ divNearest n den := by
  rcases Nat.eq_or_lt_of_le (Nat.div_le_div_right h : m / den ≤ n / den) with hquotient | hlt
  · -- The remainders are in order, and rounding goes down, to the even neighbour or up by them.
    have hremainder : m % den ≤ n % den := by
      have hm := Nat.div_add_mod m den
      have hn := Nat.div_add_mod n den
      rw [hquotient] at hm
      omega
    have hdown := le_divNearest n den
    simp only [divNearest, hquotient] at hdown ⊢
    by_cases hbelow : 2 * (m % den) < den
    · rw [if_pos hbelow]
      exact hdown
    · rw [if_neg hbelow, if_neg (show ¬ 2 * (n % den) < den by omega)]
      by_cases habove : den < 2 * (m % den)
      · rw [if_pos habove, if_pos (show den < 2 * (n % den) by omega)]
      · rw [if_neg habove]
        split <;> omega
  · calc divNearest m den ≤ m / den + 1 := divNearest_le m den
      _ ≤ n / den := hlt
      _ ≤ divNearest n den := le_divNearest n den

/-- The magnitude of a natural number is the exponent and the fraction of its units, capped at
infinity. -/
theorem nearestMagnitude_one (n : Nat) :
    nearestMagnitude n 1 =
      min (((n * unitsPerOne).log2 - 52) * exponentWeight
        + divNearest (n * unitsPerOne) (2 ^ ((n * unitsPerOne).log2 - 52))) infinityMagnitude := by
  simp only [nearestMagnitude, Nat.div_one, Nat.one_shiftLeft]

/-- At its last place a number of units has at most 53 bits. -/
theorem divNearest_last_le (exact : Nat) :
    divNearest exact (2 ^ (exact.log2 - 52)) ≤ 2 * exponentWeight := by
  have hquotient : exact / 2 ^ (exact.log2 - 52) < 2 ^ 53 := by
    rw [Nat.div_lt_iff_lt_mul (Nat.two_pow_pos _), ← Nat.pow_add]
    exact Nat.lt_of_lt_of_le Nat.lt_log2_self (Nat.pow_le_pow_right (by decide) (by omega))
  have hround := divNearest_le exact (2 ^ (exact.log2 - 52))
  unfold exponentWeight
  omega

/-- And at least 53 bits, if the last place is worth more than a unit. -/
theorem le_divNearest_last {exact : Nat} (h : 52 < exact.log2) :
    exponentWeight ≤ divNearest exact (2 ^ (exact.log2 - 52)) := by
  have hne : exact ≠ 0 := by
    intro hzero
    rw [hzero, Nat.log2_zero] at h
    exact absurd h (by decide)
  have hquotient : exponentWeight ≤ exact / 2 ^ (exact.log2 - 52) := by
    rw [Nat.le_div_iff_mul_le (Nat.two_pow_pos _), exponentWeight_eq, ← Nat.pow_add,
      Nat.add_sub_cancel' (by omega)]
    exact Nat.log2_self_le hne
  exact Nat.le_trans hquotient (le_divNearest _ _)

/-- Exponent and fraction together do not fall when the number of units grows. -/
theorem place_mono {m n : Nat} (h : m ≤ n) :
    (m.log2 - 52) * exponentWeight + divNearest m (2 ^ (m.log2 - 52))
      ≤ (n.log2 - 52) * exponentWeight + divNearest n (2 ^ (n.log2 - 52)) := by
  have hlog : m.log2 ≤ n.log2 := by
    rw [Nat.log2_eq_log_two, Nat.log2_eq_log_two]
    exact Nat.log_mono_right h
  rcases Nat.eq_or_lt_of_le (Nat.sub_le_sub_right hlog 52) with heq | hlt
  · rw [heq]
    exact Nat.add_le_add_left (divNearest_mono _ h) _
  · -- With another exponent even the greatest fraction is below the least one of the next.
    have hfraction := divNearest_last_le m
    have hnext : exponentWeight ≤ divNearest n (2 ^ (n.log2 - 52)) := le_divNearest_last (by omega)
    calc (m.log2 - 52) * exponentWeight + divNearest m (2 ^ (m.log2 - 52))
        ≤ (m.log2 - 52) * exponentWeight + 2 * exponentWeight := Nat.add_le_add_left hfraction _
      _ = (m.log2 - 52 + 1) * exponentWeight + exponentWeight := by
          rw [Nat.two_mul, Nat.add_one_mul, Nat.add_assoc]
      _ ≤ (n.log2 - 52) * exponentWeight + divNearest n (2 ^ (n.log2 - 52)) :=
        Nat.add_le_add (Nat.mul_le_mul_right _ hlt) hnext

/-- A greater natural number has no lesser magnitude. -/
theorem nearestMagnitude_mono {m n : Nat} (h : m ≤ n) : nearestMagnitude m 1 ≤ nearestMagnitude n 1 := by
  rw [nearestMagnitude_one, nearestMagnitude_one]
  exact min_le_min_right _ (place_mono (Nat.mul_le_mul_right _ h))

theorem rank_ofInt (i : Int) :
    (ofInt i).rank = if i < 0 then -(nearestMagnitude i.natAbs 1 : Int)
      else nearestMagnitude i.natAbs 1 := by
  have hcap : nearestMagnitude i.natAbs 1 < signWeight :=
    Nat.lt_of_le_of_lt (Nat.min_le_right _ _) infinityMagnitude_lt_signWeight
  rw [ofInt, nearest, rank, isNegative_ofMagnitude hcap, magnitude_ofMagnitude hcap]
  simp only [decide_eq_true_eq]

/-- **Rounding is monotone**: it does not turn the order of two integers round. -/
theorem rank_ofInt_mono {i j : Int} (h : i ≤ j) : (ofInt i).rank ≤ (ofInt j).rank := by
  rw [rank_ofInt, rank_ofInt]
  split
  · split
    · have hmagnitude := nearestMagnitude_mono (show j.natAbs ≤ i.natAbs by omega)
      omega
    · omega
  · have hmagnitude := nearestMagnitude_mono (show i.natAbs ≤ j.natAbs by omega)
    split <;> omega

theorem rank_eq_of_compare? {a b : Double} (h : a.compare? b = some .eq) : a.rank = b.rank := by
  unfold compare? at h
  split at h
  · exact absurd h (by simp)
  · exact Std.LawfulEqOrd.eq_of_compare (Option.some.inj h)

/-- Two different integers that both equal a double. -/
structure Merges (d : Double) (i j : Int64) : Prop where
  ne : i ≠ j
  left : (ofInt i.toInt).compare? d = some .eq
  right : (ofInt j.toInt).compare? d = some .eq

namespace Merges

variable {d : Double} {i j : Int64}

theorem symm (h : d.Merges i j) : d.Merges j i where
  ne := h.ne.symm
  left := h.right
  right := h.left

/-- Integers below 2 ^ 53 are not merged with any other. -/
theorem le_natAbs_left (h : d.Merges i j) : 2 ^ 53 ≤ i.toInt.natAbs := by
  by_contra hlt
  have hi := units_ofInt_of_lt (Nat.lt_of_not_le hlt)
  have hbound : (ofInt i.toInt).units.natAbs < 2 ^ 53 * unitsPerOne := by
    rw [hi, Int.natAbs_mul, Int.natAbs_natCast]
    exact Nat.mul_lt_mul_of_pos_right (Nat.lt_of_not_le hlt) (Int.natCast_pos.mp unitsPerOne_pos)
  have hranks : (ofInt j.toInt).rank = (ofInt i.toInt).rank :=
    (rank_eq_of_compare? h.right).trans (rank_eq_of_compare? h.left).symm
  have hunits : compare (j.toInt * (unitsPerOne : Int)) (i.toInt * (unitsPerOne : Int)) = .eq := by
    rw [← hi, ← compare_units_ofInt j hbound, ← compare_rank, hranks, Std.ReflOrd.compare_self]
  rw [compare_mul_right unitsPerOne_pos, Std.LawfulEqOrd.compare_eq_iff_eq] at hunits
  exact h.ne (Int64.toInt_inj.mp hunits).symm

end Merges

end Double

/-! ### Places of numbers -/

namespace Literal

variable {a b c : Literal}

/-- The place of a number on the number line, at which an integer stands after it is rounded. -/
def roundedPlace : Literal → Int
  | int value => (Double.ofInt value.toInt).rank
  | float value => value.rank
  | _ => 0

/-- Numbers compare like their places, as long as no two different integers share one. -/
theorem compare?_place (ha : a.isNumber = true) (hb : b.isNumber = true)
    (h : ∀ i j, a = int i → b = int j → a.roundedPlace = b.roundedPlace → i = j) :
    a.compare? b = some (compare a.roundedPlace b.roundedPlace) := by
  have hnan : ∀ i : Int64, (Double.ofInt i.toInt).isNaN = false :=
    fun i => Double.isNaN_eq_false_of_isFinite (Double.isFinite_ofInt i)
  cases a with
  | int i =>
      cases b with
      | int j =>
          -- Rounding keeps the order, and here it keeps the two apart as well.
          have hsame := h i j rfl rfl
          refine congrArg some ?_
          rcases Int.lt_trichotomy i.toInt j.toInt with hlt | heq | hgt
          · have hle : (int i).roundedPlace ≤ (int j).roundedPlace :=
              Double.rank_ofInt_mono (Int.le_of_lt hlt)
            have hne : (int i).roundedPlace ≠ (int j).roundedPlace := by
              intro hplace
              rw [hsame hplace] at hlt
              exact Int.lt_irrefl _ hlt
            rw [Int.compare_eq_lt.mpr hlt, Int.compare_eq_lt.mpr (by omega)]
          · rw [Int64.toInt_inj.mp heq, Std.ReflOrd.compare_self, Std.ReflOrd.compare_self]
          · have hle : (int j).roundedPlace ≤ (int i).roundedPlace :=
              Double.rank_ofInt_mono (Int.le_of_lt hgt)
            have hne : (int i).roundedPlace ≠ (int j).roundedPlace := by
              intro hplace
              rw [hsame hplace] at hgt
              exact Int.lt_irrefl _ hgt
            rw [Int.compare_eq_gt.mpr hgt, Int.compare_eq_gt.mpr (by omega)]
      | float d =>
          simp only [isNumber, Bool.not_eq_true'] at hb
          exact Double.compare?_of_isNaN_eq_false (hnan i) hb
      | _ => exact absurd hb Bool.false_ne_true
  | float d =>
      simp only [isNumber, Bool.not_eq_true'] at ha
      cases b with
      | int j => exact Double.compare?_of_isNaN_eq_false ha (hnan j)
      | float e =>
          simp only [isNumber, Bool.not_eq_true'] at hb
          exact Double.compare?_of_isNaN_eq_false ha hb
      | _ => exact absurd hb Bool.false_ne_true
  | _ => exact absurd ha Bool.false_ne_true

/-- Numbers at different places compare like these. -/
theorem compare?_of_place_ne (ha : a.isNumber = true) (hb : b.isNumber = true)
    (h : a.roundedPlace ≠ b.roundedPlace) :
    a.compare? b = some (compare a.roundedPlace b.roundedPlace) :=
  compare?_place ha hb fun _ _ _ _ hplace => absurd hplace h

/-- An integer and a double at one place are equal. -/
theorem compare?_int_float {i : Int64} {d : Double} (hd : (float d).isNumber = true)
    (h : (int i).roundedPlace = (float d).roundedPlace) :
    (int i).compare? (float d) = some .eq := by
  rw [compare?_place rfl hd (fun _ _ _ hfloat => absurd hfloat (by simp)), h,
    Std.ReflOrd.compare_self]

theorem roundedPlace_eq_of_compare? (ha : a.isNumber = true) (hb : b.isNumber = true)
    (h : a.compare? b = some .eq) : a.roundedPlace = b.roundedPlace := by
  by_contra hne
  rw [compare?_of_place_ne ha hb hne, Option.some.injEq, Std.LawfulEqOrd.compare_eq_iff_eq] at h
  exact hne h

/-- Null apart, numbers can be compared with numbers alone, and all of them. -/
theorem isNumber_eq_of_compare? {x : Ordering} (h : a.compare? b = some x) (ha : a ≠ null)
    (hb : b ≠ null) : a.isNumber = b.isNumber := by
  rcases family_of_compare? h ha hb with ⟨p, q, rfl, rfl⟩ | ⟨s, t, rfl, rfl⟩ | ⟨hna, hnb⟩
  · rfl
  · rfl
  · rw [hna, hnb]

/-! ### Two steps up -/

/-- The first literal is below the second or equals it. -/
def AtMost (a b : Literal) : Prop :=
  ∃ x, a.compare? b = some x ∧ x ≠ .gt

theorem atMost_int {i j : Int64} : (int i).AtMost (int j) ↔ i.toInt ≤ j.toInt := by
  have hcompare : (int i).compare? (int j) = some (compare i.toInt j.toInt) := rfl
  constructor
  · intro ⟨x, hx, hxgt⟩
    obtain rfl := Option.some.inj (hcompare.symm.trans hx)
    exact Int.not_lt.mp fun hlt => hxgt (Int.compare_eq_gt.mpr hlt)
  · intro hle
    exact ⟨_, hcompare, fun hgt => Int.not_lt.mpr hle (Int.compare_eq_gt.mp hgt)⟩

theorem AtMost.place_le (hab : a.AtMost b) (ha : a.isNumber = true) (hb : b.isNumber = true) :
    a.roundedPlace ≤ b.roundedPlace := by
  obtain ⟨x, hx, hxgt⟩ := hab
  by_contra hlt
  rw [compare?_of_place_ne ha hb (by omega)] at hx
  obtain rfl := Option.some.inj hx
  exact hxgt (Int.compare_eq_gt.mpr (by omega))

/-- Conversely the places decide, except for integers that share one. -/
theorem atMost_of_place_le (ha : a.isNumber = true) (hb : b.isNumber = true)
    (hle : a.roundedPlace ≤ b.roundedPlace)
    (hshared : ∀ i j, a = int i → b = int j → a.roundedPlace = b.roundedPlace → i.toInt ≤ j.toInt) :
    a.AtMost b := by
  by_cases hints : ∃ i j, a = int i ∧ b = int j ∧ a.roundedPlace = b.roundedPlace
  · obtain ⟨i, j, rfl, rfl, hplace⟩ := hints
    exact atMost_int.mpr (hshared i j rfl rfl hplace)
  · refine ⟨_, compare?_place ha hb fun i j hi hj hplace => ?_, ?_⟩
    · exact absurd ⟨i, j, hi, hj, hplace⟩ hints
    · exact fun hgt => Int.not_lt.mpr hle (Int.compare_eq_gt.mp hgt)

theorem AtMost.ne_null (hab : a.AtMost b) (ha : a ≠ null) : b ≠ null := by
  intro hb
  obtain ⟨x, hx, hxgt⟩ := hab
  rw [hb, compare?_null_right ha] at hx
  exact hxgt (Option.some.inj hx).symm

theorem AtMost.isNumber_eq (hab : a.AtMost b) (ha : a ≠ null) : a.isNumber = b.isNumber := by
  obtain ⟨x, hx, -⟩ := id hab
  exact isNumber_eq_of_compare? hx ha (hab.ne_null ha)

/-- Up from null, and among truth values and among strings, two steps compose. -/
theorem AtMost.trans_of_isNumber_eq_false (hab : a.AtMost b) (hbc : b.AtMost c)
    (h : a.isNumber = false) : a.AtMost c := by
  have hcoherent : ∃ S : Literal → Prop, CoherentAt a S ∧ S b ∧ S c := by
    by_cases ha : a = null
    · exact ⟨fun _ => True, ha ▸ coherentAt_null _, trivial, trivial⟩
    · have hb : b.isNumber = false := (hab.isNumber_eq ha).symm.trans h
      have hc : c.isNumber = false := (hbc.isNumber_eq (hab.ne_null ha)).symm.trans hb
      have hplace : ∀ l m : Literal, l.isNumber = false → m.isNumber = false →
          l.isNumber = true → m.isNumber = true →
          l.compare? m = some (compare l.roundedPlace m.roundedPlace) :=
        fun l m hl _ hnumber _ => absurd (hl.symm.trans hnumber) Bool.false_ne_true
      exact ⟨fun l => l.isNumber = false, coherentAt_of_place hplace h, hb, hc⟩
  obtain ⟨S, hS, hb, hc⟩ := hcoherent
  obtain ⟨x, hx, hxgt⟩ := hab
  obtain ⟨y, hy, hygt⟩ := hbc
  refine ⟨x.then y, hS .upper hb hc hx hy hxgt hygt, ?_⟩
  cases x with
  | lt => simp
  | eq => exact hygt
  | gt => exact absurd rfl hxgt

/-- **Two steps up compose**, unless they lead from an integer over a double that equals it to a lesser
integer that equals the double as well. -/
theorem AtMost.trans_iff (hab : a.AtMost b) (hbc : b.AtMost c) :
    a.AtMost c ↔ ¬ ∃ i d j, a = int i ∧ b = float d ∧ c = int j ∧ d.Merges i j ∧
      j.toInt < i.toInt := by
  constructor
  · intro hac ⟨i, d, j, hi, _, hj, _, hlt⟩
    rw [hi, hj, atMost_int] at hac
    exact Int.not_lt.mpr hac hlt
  · intro hmerged
    by_cases ha : a.isNumber = true
    · have hne := ne_null_of_isNumber ha
      have hb : b.isNumber = true := (hab.isNumber_eq hne).symm.trans ha
      have hc : c.isNumber = true := (hbc.isNumber_eq (hab.ne_null hne)).symm.trans hb
      have hleft := hab.place_le ha hb
      have hright := hbc.place_le hb hc
      refine atMost_of_place_le ha hc (Int.le_trans hleft hright) fun i j hi hj hplace => ?_
      subst hi hj
      -- Between two integers at one place `b` is there too.
      cases b with
      | int k => exact Int.le_trans (atMost_int.mp hab) (atMost_int.mp hbc)
      | float d =>
          by_contra hlt
          refine hmerged ⟨i, d, j, rfl, rfl, rfl, ⟨?_, ?_, ?_⟩, Int.not_le.mp hlt⟩
          · intro hij
            exact hlt (Int.le_of_eq (congrArg Int64.toInt hij))
          · exact compare?_int_float hb (by omega)
          · exact compare?_int_float hb (by omega)
      | _ => exact absurd hb Bool.false_ne_true
    · exact hab.trans_of_isNumber_eq_false hbc (Bool.eq_false_iff.mpr ha)

/-! ### Equal literals -/

/-- An integer and a double that equals it compare alike with a number that is not merged with the
integer. -/
theorem compare?_congr_float {i : Int64} {d : Double} (hi : (int i).compare? (float d) = some .eq)
    (hc : c.isNumber = true) (h : ∀ j, c = int j → ¬ d.Merges i j) :
    (int i).compare? c = (float d).compare? c := by
  have hd : (float d).isNumber = true :=
    (isNumber_eq_of_compare? hi (by simp) (by simp)).symm.trans rfl
  have hplace := roundedPlace_eq_of_compare? rfl hd hi
  rw [compare?_place hd hc fun _ _ hfloat => absurd hfloat (by simp), ← hplace]
  refine compare?_place rfl hc fun k j hk hj hshared => ?_
  obtain rfl := int.inj hk
  by_contra hne
  refine h j hj ⟨hne, hi, ?_⟩
  exact compare?_int_float hd (by rw [← hj, ← hshared, hplace])

/-- Two equal numbers compare alike with a number, unless one of them is an integer that the other
merges with it. -/
theorem compare?_congr_number (ha : a.isNumber = true) (hb : b.isNumber = true)
    (hc : c.isNumber = true) (hab : a.compare? b = some .eq)
    (h : ∀ i d j, (a = int i ∧ b = float d ∨ a = float d ∧ b = int i) → c = int j →
      ¬ d.Merges i j) :
    a.compare? c = b.compare? c := by
  cases a with
  | int i =>
      cases b with
      | int k => rw [Int64.toInt_inj.mp (Std.LawfulEqOrd.eq_of_compare (Option.some.inj hab))]
      | float d => exact compare?_congr_float hab hc fun j => h i d j (.inl ⟨rfl, rfl⟩)
      | _ => exact absurd hb Bool.false_ne_true
  | float d =>
      have hplace := roundedPlace_eq_of_compare? ha hb hab
      cases b with
      | int i =>
          have hba : (int i).compare? (float d) = some .eq := compare?_int_float ha hplace.symm
          exact (compare?_congr_float hba hc fun j => h i d j (.inr ⟨rfl, rfl⟩)).symm
      | float e =>
          rw [compare?_place ha hc fun _ _ hfloat => absurd hfloat (by simp), hplace,
            compare?_place hb hc fun _ _ hfloat => absurd hfloat (by simp)]
      | _ => exact absurd hb Bool.false_ne_true
  | _ => exact absurd ha Bool.false_ne_true

/-- Numbers do not compare with anything but numbers and null. -/
theorem compare?_eq_none (ha : a.isNumber = true) (hc : c.isNumber = false) (hnull : c ≠ null) :
    a.compare? c = none := by
  by_contra hsome
  obtain ⟨x, hx⟩ := Option.ne_none_iff_exists'.mp hsome
  have hnumber := isNumber_eq_of_compare? hx (ne_null_of_isNumber ha) hnull
  rw [ha, hc] at hnumber
  exact absurd hnumber.symm Bool.false_ne_true

/-- A double and an integer that equals it do not compare alike with another that equals it. -/
theorem compare?_ne_of_merges {i j : Int64} {d : Double} (h : d.Merges i j) :
    (int i).compare? (int j) ≠ (float d).compare? (int j) := by
  intro heq
  have hright : (float d).compare? (int j) = some .eq := by
    rw [compare?_swap (int j)]
    exact congrArg (Option.map Ordering.swap) h.right
  have hints : some (compare i.toInt j.toInt) = some .eq := heq.trans hright
  exact h.ne (Int64.toInt_inj.mp (Std.LawfulEqOrd.eq_of_compare (Option.some.inj hints)))

/-- **Equal literals compare alike** with a third one, unless they are an integer and a double, and the
third is another integer that equals the double. -/
theorem compare?_congr_iff (hab : a.compare? b = some .eq) :
    a.compare? c = b.compare? c ↔
      ¬ ∃ i d j, (a = int i ∧ b = float d ∨ a = float d ∧ b = int i) ∧ c = int j ∧
        d.Merges i j := by
  constructor
  · intro heq ⟨i, d, j, hkinds, hj, hmerges⟩
    subst hj
    rcases hkinds with ⟨rfl, rfl⟩ | ⟨rfl, rfl⟩
    · exact compare?_ne_of_merges hmerges heq
    · exact compare?_ne_of_merges hmerges heq.symm
  · intro hmerged
    by_cases hnull : a = null
    · rw [hnull, (eq_null_iff_of_compare?_eq hab).mp hnull]
    have hbnull : b ≠ null := mt (eq_null_iff_of_compare?_eq hab).mpr hnull
    rcases family_of_compare? hab hnull hbnull with ⟨p, q, rfl, rfl⟩ | ⟨s, t, rfl, rfl⟩ | ⟨ha, hb⟩
    · rw [Std.LawfulEqOrd.eq_of_compare (Option.some.inj hab)]
    · rw [Std.LawfulEqOrd.eq_of_compare (Option.some.inj hab)]
    · by_cases hcnull : c = null
      · rw [hcnull, compare?_null_right hnull, compare?_null_right hbnull]
      · by_cases hc : c.isNumber = true
        · exact compare?_congr_number ha hb hc hab fun i d j hkinds hj hmerges =>
            hmerged ⟨i, d, j, hkinds, hj, hmerges⟩
        · have hc := Bool.eq_false_iff.mpr hc
          rw [compare?_eq_none ha hc hcnull, compare?_eq_none hb hc hcnull]

/-! ### The laws -/

/-- **The laws of the order of literals**, for literals of all kinds. The other way round the answer is
the reverse one, and null is below everything else. Two steps up compose, and equal literals compare
alike, exactly where no double comes between two integers that it merges; and these are of magnitude
2 ^ 53 or more. -/
theorem compare?_laws (a b c : Literal) :
    b.compare? a = (a.compare? b).map Ordering.swap ∧
    (a ≠ null → null.compare? a = some .lt) ∧
    (a.AtMost b → b.AtMost c →
      (a.AtMost c ↔ ¬ ∃ i d j, a = int i ∧ b = float d ∧ c = int j ∧ d.Merges i j ∧
        j.toInt < i.toInt)) ∧
    (a.compare? b = some .eq →
      (a.compare? c = b.compare? c ↔
        ¬ ∃ i d j, (a = int i ∧ b = float d ∨ a = float d ∧ b = int i) ∧ c = int j ∧
          d.Merges i j)) ∧
    ∀ i d j, Double.Merges d i j → 2 ^ 53 ≤ i.toInt.natAbs ∧ 2 ^ 53 ≤ j.toInt.natAbs := by
  refine ⟨compare?_swap a b, compare?_null_left, AtMost.trans_iff, compare?_congr_iff, ?_⟩
  intro i d j hmerges
  exact ⟨hmerges.le_natAbs_left, hmerges.symm.le_natAbs_left⟩

/-- Two and two and a half and three are in order, and two is not merged with three. -/
theorem compare?_laws_twoAndAHalf :
    (int 2).AtMost (float ⟨0x4004000000000000⟩) ∧ (float ⟨0x4004000000000000⟩).AtMost (int 3) ∧
      (int 2).AtMost (int 3) := by
  have hleft : (int 2).AtMost (float ⟨0x4004000000000000⟩) := ⟨.lt, by decide +kernel, by decide⟩
  have hright : (float ⟨0x4004000000000000⟩).AtMost (int 3) := ⟨.lt, by decide +kernel, by decide⟩
  obtain ⟨-, -, htrans, -, hlarge⟩ :=
    compare?_laws (int 2) (float ⟨0x4004000000000000⟩) (int 3)
  refine ⟨hleft, hright, (htrans hleft hright).mpr ?_⟩
  intro ⟨i, d, j, hi, _, _, hmerges, _⟩
  obtain rfl := int.inj hi
  exact absurd (hlarge 2 d j hmerges).1 (by decide)

/-- The double 2 ^ 53 equals the integer 2 ^ 53 and the one after it. So two steps up lead down, and two
equal literals do not compare alike with a third, though all of them are comparable. -/
theorem not_total_order :
    (¬ ∀ a b c : Literal, a.compare? c ≠ none → a.AtMost b → b.AtMost c → a.AtMost c) ∧
      ¬ ∀ a b c : Literal, a.compare? c ≠ none → b.compare? c ≠ none → a.compare? b = some .eq →
        a.compare? c = b.compare? c := by
  constructor
  · intro htrans
    have hstep := htrans (int 9007199254740993) (float ⟨0x4340000000000000⟩) (int 9007199254740992)
      (by decide) ⟨.eq, by decide +kernel, by decide⟩ ⟨.eq, by decide +kernel, by decide⟩
    exact absurd (atMost_int.mp hstep) (by decide)
  · intro hcongr
    have halike := hcongr (int 9007199254740992) (float ⟨0x4340000000000000⟩)
      (int 9007199254740993) (by decide) (by decide +kernel) (by decide +kernel)
    exact absurd halike (by decide +kernel)

end Literal

end QueryAnalysis
