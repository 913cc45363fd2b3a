import QueryAnalysis.Columns

/-!
# Cursors over column sets

A `ColumnSet.Cursor` gives out the ordinals of a column set one at a time. It stands at one of the
set's words and keeps what is left of that word: whenever an ordinal is given out, the lowest bit is
cleared (`clearLowestBit`), and from a word without bits the cursor moves on to the next one.
`Cursor.items` is everything that a cursor gives out until it gives nothing.
-/

namespace QueryAnalysis

/-! ### The lowest bit of a word -/

/-- The position of the lowest bit that is set in a word, 64 if none is. -/
def lowestBit (w : UInt64) : Nat :=
  w.toBitVec.ctz.toNat

/-- A word without the lowest bit that is set in it. -/
def clearLowestBit (w : UInt64) : UInt64 :=
  w &&& (w - 1)

theorem toNat_sub_one {w : UInt64} (h : w ≠ 0) : (w - 1).toNat = w.toNat - 1 := by
  have hpos : w.toNat ≠ 0 := fun hzero => h (UInt64.toNat_inj.mp hzero)
  refine UInt64.toNat_sub_of_le _ _ (UInt64.le_iff_toNat_le.mpr ?_)
  exact Nat.one_le_iff_ne_zero.mpr hpos

theorem toNat_clearLowestBit_lt {w : UInt64} (h : w ≠ 0) :
    (clearLowestBit w).toNat < w.toNat := by
  have hpos : w.toNat ≠ 0 := fun hzero => h (UInt64.toNat_inj.mp hzero)
  have hle : (clearLowestBit w).toNat ≤ (w - 1).toNat := by
    rw [clearLowestBit, UInt64.toNat_and]
    exact Nat.and_le_right
  rw [toNat_sub_one h] at hle
  omega

namespace ColumnSet

/-! ### Cursors -/

/-- A place in the words of a column set. -/
structure Cursor where
  /-- All words of the set. -/
  words : List UInt64
  /-- The number of the word at which the cursor stands. -/
  index : Nat
  /-- That word, without the ordinals that were given out. -/
  current : UInt64
deriving DecidableEq

/-- The cursor that has given out nothing. -/
def cursor (s : ColumnSet) : Cursor :=
  ⟨s.words, 0, s.words.head?.getD 0⟩

namespace Cursor

/-- The next ordinal and the cursor behind it. Behind the last word there are no more ordinals. -/
def next (c : Cursor) : Option Nat × Cursor :=
  if c.current = 0 then
    if h : c.index + 1 < c.words.length then
      next { c with index := c.index + 1, current := c.words[c.index + 1] }
    else (none, { c with index := c.index + 1 })
  else
    (some (64 * c.index + lowestBit c.current), { c with current := clearLowestBit c.current })
termination_by c.words.length - c.index

/-- An ordinal that is given out comes from the word at which the cursor stands, which loses a bit,
or from a word behind it. -/
theorem next_lt {c rest : Cursor} {n : Nat} (h : c.next = (some n, rest)) :
    Prod.Lex (· < ·) (· < ·) (rest.words.length - rest.index, rest.current.toNat)
      (c.words.length - c.index, c.current.toNat) := by
  fun_induction next c with
  | case1 c hzero hlt ih =>
      have hrest := Prod.lex_def.mp (ih h)
      refine .left _ _ ?_
      simp only at hrest
      omega
  | case2 c hzero hge => exact absurd h (by simp)
  | case3 c hne =>
      obtain ⟨-, rfl⟩ := Prod.mk.inj h
      exact .right _ (toNat_clearLowestBit_lt hne)

/-- The ordinals that are given out before nothing is. -/
def items (c : Cursor) : List Nat :=
  match _ : c.next with
  | (some n, rest) => n :: rest.items
  | (none, _) => []
termination_by (c.words.length - c.index, c.current.toNat)
decreasing_by exact next_lt ‹_›

/-- The cursor after some ordinals were asked for. -/
def after (c : Cursor) : Nat → Cursor
  | 0 => c
  | count + 1 => c.next.2.after count

end Cursor

end ColumnSet

end QueryAnalysis
