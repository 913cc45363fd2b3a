import Mathlib.Algebra.Order.Field.Basic
import Mathlib.Algebra.Order.Ring.Rat
import QueryAnalysis.Proofs.Range.Partition

/-!
# Rounding is exact

An integer and a finite double of any size are rational numbers (`Literal.number?`). Rounding moves an
endpoint at such a number to an integer of the domain or to an infinity, but what the endpoint says
about the integers of the domain is still how they stand to the number (`Endpoint.rounded_exact`): no
fraction, no size beyond the domain and neither end of it, open or closed, gains or loses one.

The doubles are integer multiples of a smallest unit, in which their order is computed;
`Strictness.allows_compare_units` is the step from there to the numbers themselves.
-/

namespace QueryAnalysis

variable {role : Role} {s : Strictness}

/-! ### Numbers -/

/-- The exact number that a literal stands for: an integer or a finite double. -/
def Literal.number? : Literal → Option ℚ
  | int i => some i.toInt
  | float d => if d.isFinite then some (d.units / Double.unitsPerOne) else none
  | _ => none

theorem Literal.ne_null_of_number? {l : Literal} {q : ℚ} (h : l.number? = some q) : l ≠ .null := by
  intro hnull
  rw [hnull] at h
  exact absurd h (by simp [number?])

/-- A number has its place among the integers. -/
theorem Coordinate.integral?_of_number? {l : Literal} {q : ℚ} (h : l.number? = some q) (role : Role)
    (s : Strictness) : ∃ place, integral? role s (.literal l) = some place := by
  cases l with
  | int i => exact ⟨_, rfl⟩
  | float d =>
      cases hfinite : d.isFinite with
      | true =>
          simp only [integral?, hfinite, if_true]
          split
          · exact ⟨_, rfl⟩
          · cases role <;> exact ⟨_, rfl⟩
      | false => simp [Literal.number?, hfinite] at h
  | _ => exact absurd h (by simp [Literal.number?])

/-! ### Relations to a number -/

namespace Strictness

/-- The relation to a number that an endpoint of some role and strictness asks for. -/
def Relates (role : Role) (s : Strictness) (a b : ℚ) : Prop :=
  match role, s with
  | .lower, opened => b < a
  | .lower, closed => b ≤ a
  | .upper, opened => a < b
  | .upper, closed => a ≤ b

instance (role : Role) (s : Strictness) (a b : ℚ) : Decidable (s.Relates role a b) := by
  unfold Relates
  cases role <;> cases s <;> infer_instance

/-- The order of integers is that of the numbers. -/
theorem allows_compare_int (i n : Int) :
    s.Allows role (compare i n) ↔ s.Relates role (i : ℚ) (n : ℚ) := by
  cases role <;> cases s <;>
    simp [Allows, Relates, Role.inward, Role.outward, Int.compare_eq_lt, Int.compare_eq_gt]

/-- The order of an integer and a double, both counted in units, is that of the numbers. -/
theorem allows_compare_units (i units : Int) :
    s.Allows role (compare (i * (Double.unitsPerOne : Int)) units) ↔
      s.Relates role (i : ℚ) ((units : ℚ) / Double.unitsPerOne) := by
  have hpos : (0 : ℚ) < (Double.unitsPerOne : ℚ) := by
    exact_mod_cast Double.unitsPerOne_pos
  rw [allows_compare_int]
  push_cast
  cases role <;> cases s <;> simp only [Relates, div_lt_iff₀ hpos, div_le_iff₀ hpos,
    lt_div_iff₀ hpos, le_div_iff₀ hpos]

end Strictness

/-- An integer compares with a number as numbers do. -/
theorem Literal.exactCompare?_number {l : Literal} {q : ℚ} (h : l.number? = some q) (i : Int64)
    (role : Role) (s : Strictness) :
    (∃ x, (Literal.int i).exactCompare? l = some x ∧ s.Allows role x) ↔
      s.Relates role (i.toInt : ℚ) q := by
  cases l with
  | int n =>
      obtain rfl := Option.some.inj h
      simp [exactCompare?, Strictness.allows_compare_int]
  | float d =>
      cases hfinite : d.isFinite with
      | true =>
          simp only [number?, hfinite, if_true, Option.some.injEq] at h
          subst h
          simp [exactCompare?, hfinite, Strictness.allows_compare_units]
      | false => simp [number?, hfinite] at h
  | _ => exact absurd h (by simp [number?])

/-! ### Rounded endpoints -/

namespace Endpoint

section

variable {domain : Domain} {least greatest : Int} {l : Literal} {q : ℚ}
  (hrange : domain.type.integralRange? = some (least, greatest)) (hl : l.number? = some q)

include hrange hl

/-- A rounded number is an infinity or an integer of the domain, where it stays. -/
theorem rounded_cases (role : Role) (s : Strictness) :
    rounded domain role s (.literal l) = negInfinity ∨
    rounded domain role s (.literal l) = posInfinity ∨
    ∃ (s' : Strictness) (n : Int64), least ≤ n.toInt ∧ n.toInt ≤ greatest ∧
      rounded domain role s (.literal l) = finite role s' (.literal (.int n)) ∧
      rounded domain role s' (.literal (.int n)) = finite role s' (.literal (.int n)) := by
  obtain ⟨hlow, -, hhigh⟩ := domain.type.integralRange?_bounds hrange
  obtain ⟨⟨value, s'⟩, hplace⟩ := Coordinate.integral?_of_number? hl role s
  rw [rounded_of_integral? hrange hplace]
  rcases ofIntegral_cases least greatest role s' value with ⟨-, h⟩ | ⟨-, -, h⟩ | ⟨hmiss, hexceed, h⟩
  · cases role with
    | lower => exact .inr (.inl h)
    | upper => exact .inl h
  · cases role with
    | lower => exact .inl h
    | upper => exact .inr (.inl h)
  · obtain ⟨hleast, hgreatest⟩ := bounds_of_inside hmiss hexceed
    have hvalue : (Int64.ofInt value).toInt = value :=
      Int64.toInt_ofInt_of_le (by omega) (by omega)
    -- The integer is its own place, so the second rounding computes what the first one did.
    have hagain : rounded domain role s' (.literal (.int (Int64.ofInt value)))
        = ofIntegral least greatest role s' value :=
      rounded_of_integral? hrange (by rw [Coordinate.integral?, hvalue])
    exact .inr (.inr ⟨s', Int64.ofInt value, by omega, by omega, h, hagain.trans h⟩)

/-- Where a rounded number stands, it stays. -/
theorem rounded_rounded {r : Role} {s' : Strictness} {c : Coordinate}
    (h : rounded domain role s (.literal l) = finite r s' c) :
    rounded domain role s' c = finite r s' c := by
  rcases rounded_cases hrange hl role s with hfree | hfree | ⟨t, n, -, -, hn, hagain⟩
  · exact absurd (hfree.symm.trans h) (by simp)
  · exact absurd (hfree.symm.trans h) (by simp)
  · obtain ⟨rfl, rfl, rfl⟩ := Endpoint.finite.inj (hn.symm.trans h)
    exact hagain

/-- A rounded number is known to admit an integer or not to. -/
theorem admits?_rounded_ne_none (i : Int64) :
    (rounded domain role s (.literal l)).admits? role (.int i) ≠ none := by
  rcases rounded_cases hrange hl role s with h | h | ⟨s', n, -, -, h, -⟩
  · rw [h]
    cases role <;> simp [admits?, above?, below?]
  · rw [h]
    cases role <;> simp [admits?, above?, below?]
  · rw [h, admits?_finite]
    simp [Literal.compare?]

end

/-- **Rounding is exact.** Over an integral domain the endpoint at a number, rounded to the domain,

* is satisfied by an integer of the domain (from above as a lower, from below as an upper endpoint)
  just if the integer stands to the number in the relation that the endpoint asks for;
* is an infinity, or stands at an integer of the domain on the side it was asked for;
* stays as it is, if it is finite, when it is rounded again. -/
theorem rounded_exact {domain : Domain} {least greatest : Int} {l : Literal} {q : ℚ}
    (hrange : domain.type.integralRange? = some (least, greatest)) (hl : l.number? = some q)
    (role : Role) (s : Strictness) :
    (∀ i : Int64, least ≤ i.toInt → i.toInt ≤ greatest →
      (rounded domain role s (.literal l)).admits? role (.int i)
        = some (decide (s.Relates role (i.toInt : ℚ) q))) ∧
    (rounded domain role s (.literal l) = negInfinity ∨
      rounded domain role s (.literal l) = posInfinity ∨
      ∃ (s' : Strictness) (n : Int64), least ≤ n.toInt ∧ n.toInt ≤ greatest ∧
        rounded domain role s (.literal l) = finite role s' (.literal (.int n))) ∧
    (∀ (r : Role) (s' : Strictness) (c : Coordinate),
      rounded domain role s (.literal l) = finite r s' c →
        rounded domain role s' c = finite r s' c) := by
  refine ⟨fun i hleast hgreatest => ?_, ?_, fun r s' c h => rounded_rounded hrange hl h⟩
  · have hadmits : (rounded domain role s (.literal l)).Admits role (.int i) ↔
        s.Relates role (i.toInt : ℚ) q := by
      rw [admits_rounded_iff hrange ⟨hleast, hgreatest⟩ (Literal.ne_null_of_number? hl),
        Literal.exactCompare?_number hl]
    obtain ⟨b, hb⟩ := Option.ne_none_iff_exists'.mp (admits?_rounded_ne_none hrange hl i)
    rw [Admits, hb, Option.some.injEq] at hadmits
    rw [hb]
    exact congrArg some (Bool.eq_iff_iff.mpr (hadmits.trans decide_eq_true_iff.symm))
  · rcases rounded_cases hrange hl role s with h | h | ⟨s', n, hleast, hgreatest, h, -⟩
    · exact .inl h
    · exact .inr (.inl h)
    · exact .inr (.inr ⟨s', n, hleast, hgreatest, h⟩)

/-- Of the eight-bit integers those above 2.5 are the ones from 3. -/
theorem rounded_exact_above_two_and_a_half :
    (Literal.float ⟨0x4004000000000000⟩).number? = some (5 / 2) ∧
      (rounded ⟨.int8, true⟩ .lower .opened (.literal (.float ⟨0x4004000000000000⟩))).admits? .lower
        (.int 3) = some (decide ((5 / 2 : ℚ) < (Int64.toInt 3 : ℚ))) := by
  have hnumber : (Literal.float ⟨0x4004000000000000⟩).number? = some (5 / 2) := by
    decide +kernel
  exact ⟨hnumber, (rounded_exact rfl hnumber .lower .opened).1 3 (by decide) (by decide)⟩

end Endpoint

end QueryAnalysis
