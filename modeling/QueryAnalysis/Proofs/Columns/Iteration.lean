import Mathlib.Data.List.Sort
import QueryAnalysis.Columns.Cursor
import QueryAnalysis.Proofs.Columns.Programs

/-!
# Cursors enumerate column sets

A cursor holds a word from which bits were cleared and the number of the word, and one call can pass
over any number of words without bits. What it has still to give out is a list all the same:
`Cursor.pending` are the ordinals in what is left of its word, and those of the words behind it. One
call gives out the head of that list and leaves the tail (`Cursor.next_pending`), so any number of calls
gives out the list in order (`Cursor.next_after`), and at the start the list is that of the set.

A call rests on one fact about words: the lowest bit of a word and, in ascending order, the bits that
are left when it is cleared are the bits of the word (`wordBits_eq_cons`).
-/

namespace QueryAnalysis

/-! ### Clearing the lowest bit -/

section

variable {w : UInt64} {j : Nat}

theorem wordBit_eq_testBit (w : UInt64) (j : Nat) : wordBit w j = w.toNat.testBit j := rfl

theorem toBitVec_ne_zero (h : w ≠ 0) : w.toBitVec ≠ 0#64 :=
  fun hzero => h (UInt64.toBitVec_inj.mp hzero)

theorem wordBit_lowestBit (h : w ≠ 0) : wordBit w (lowestBit w) = true :=
  BitVec.getLsbD_true_ctz_of_ne_zero (toBitVec_ne_zero h)

theorem wordBit_of_lt_lowestBit (h : j < lowestBit w) : wordBit w j = false :=
  BitVec.getLsbD_false_of_lt_ctz h

theorem lowestBit_lt (h : w ≠ 0) : lowestBit w < 64 := by
  by_contra hge
  have hbit := wordBit_lowestBit h
  rw [wordBit, BitVec.getLsbD_of_ge _ _ (Nat.le_of_not_lt hge)] at hbit
  exact Bool.false_ne_true hbit

/-- A word is its lowest bit and a multiple of the next power of two. -/
theorem exists_toNat_eq (h : w ≠ 0) :
    ∃ high, w.toNat = 2 ^ (lowestBit w + 1) * high + 2 ^ lowestBit w := by
  have hlow : w.toNat % 2 ^ (lowestBit w + 1) = 2 ^ lowestBit w := by
    refine Nat.eq_of_testBit_eq fun j => ?_
    rw [Nat.testBit_mod_two_pow, Nat.testBit_two_pow, ← wordBit_eq_testBit]
    rcases Nat.lt_trichotomy j (lowestBit w) with hlt | rfl | hgt
    · simp [wordBit_of_lt_lowestBit hlt, Nat.ne_of_gt hlt]
    · simp [wordBit_lowestBit h]
    · simp [Nat.ne_of_lt hgt, Nat.not_lt.mpr hgt]
  refine ⟨w.toNat / 2 ^ (lowestBit w + 1), ?_⟩
  rw [← hlow]
  exact (Nat.div_add_mod _ _).symm

/-- Clearing the lowest bit clears no other. -/
theorem wordBit_clearLowestBit (h : w ≠ 0) (j : Nat) :
    wordBit (clearLowestBit w) j = (wordBit w j && decide (j ≠ lowestBit w)) := by
  obtain ⟨high, hword⟩ := exists_toNat_eq h
  have hlow : 2 ^ lowestBit w < 2 ^ (lowestBit w + 1) := Nat.pow_lt_pow_succ (by decide)
  have hpos : 0 < 2 ^ lowestBit w := Nat.two_pow_pos _
  have hpred : (w - 1).toNat = 2 ^ (lowestBit w + 1) * high + (2 ^ lowestBit w - 1) := by
    rw [toNat_sub_one h]
    omega
  have hpredBit : wordBit (w - 1) j = if j < lowestBit w + 1 then (2 ^ lowestBit w - 1).testBit j
      else high.testBit (j - (lowestBit w + 1)) := by
    rw [wordBit_eq_testBit, hpred, Nat.testBit_two_pow_mul_add _ (by omega)]
  rw [clearLowestBit, wordBit_and]
  rcases Nat.lt_trichotomy j (lowestBit w) with hlt | rfl | hgt
  · simp [wordBit_of_lt_lowestBit hlt]
  · -- The predecessor has all bits below, but not this one.
    rw [hpredBit, if_pos (Nat.lt_succ_self _), Nat.testBit_two_pow_sub_one]
    simp
  · -- Above the lowest bit the word and its predecessor are the same.
    have hbit : wordBit w j = high.testBit (j - (lowestBit w + 1)) := by
      rw [wordBit_eq_testBit, hword, Nat.testBit_two_pow_mul_add _ hlow,
        if_neg (Nat.not_lt.mpr hgt)]
    rw [hpredBit, if_neg (Nat.not_lt.mpr hgt), ← hbit, Bool.and_self]
    simp [Nat.ne_of_gt hgt]

@[simp] theorem wordBits_zero : wordBits 0 = [] := rfl

/-- The bits of a word are its lowest one, and then those that are left when it is cleared. -/
theorem wordBits_eq_cons (h : w ≠ 0) :
    wordBits w = lowestBit w :: wordBits (clearLowestBit w) := by
  refine (ColumnSet.pairwise_wordBits w).eq_of_mem_iff
    (List.pairwise_cons.mpr ⟨?_, ColumnSet.pairwise_wordBits _⟩) ?_
  · intro j hj
    obtain ⟨-, hbit⟩ := mem_wordBits.mp hj
    rw [wordBit_clearLowestBit h, Bool.and_eq_true, decide_eq_true_eq] at hbit
    refine Nat.lt_of_le_of_ne (Nat.le_of_not_lt fun hlt => ?_) (Ne.symm hbit.2)
    exact Bool.false_ne_true ((wordBit_of_lt_lowestBit hlt).symm.trans hbit.1)
  · intro j
    rw [List.mem_cons, mem_wordBits, mem_wordBits, wordBit_clearLowestBit h]
    by_cases hj : j = lowestBit w
    · simp [hj, lowestBit_lt h, wordBit_lowestBit h]
    · simp [hj]

end

namespace ColumnSet

/-! ### One call -/

/-- The ordinals of words, of which the first has the given number. -/
def ordinalsFrom (number : Nat) (ws : List UInt64) : List Nat :=
  (ws.zipIdx number).flatMap fun (w, i) => (wordBits w).map fun j => 64 * i + j

theorem ordinalsFrom_cons (number : Nat) (w : UInt64) (ws : List UInt64) :
    ordinalsFrom number (w :: ws)
      = ((wordBits w).map fun j => 64 * number + j) ++ ordinalsFrom (number + 1) ws := by
  rw [ordinalsFrom, List.zipIdx_cons, List.flatMap_cons, ordinalsFrom]

theorem ordinalsFrom_zero_cons (number : Nat) (ws : List UInt64) :
    ordinalsFrom number (0 :: ws) = ordinalsFrom (number + 1) ws := by
  rw [ordinalsFrom_cons, wordBits_zero, List.map_nil, List.nil_append]

namespace Cursor

variable (c : Cursor)

/-- The ordinals that a cursor has still to give out. -/
def pending : List Nat :=
  ordinalsFrom c.index (c.current :: c.words.drop (c.index + 1))

/-- A call gives out the first of the pending ordinals, and leaves the others. -/
theorem next_pending : c.next.1 = c.pending.head? ∧ c.next.2.pending = c.pending.tail := by
  fun_induction next c with
  | case1 c hzero hlt ih =>
      -- A word without bits is passed over, and what is pending stays the same.
      have hpending : pending ⟨c.words, c.index + 1, c.words[c.index + 1]⟩ = c.pending := by
        rw [pending, pending, hzero, ordinalsFrom_zero_cons, List.drop_eq_getElem_cons hlt]
      rwa [hpending] at ih
  | case2 c hzero hge =>
      have hpending : ∀ index, c.index ≤ index → pending ⟨c.words, index, c.current⟩ = [] := by
        intro index hindex
        rw [pending, hzero, ordinalsFrom_zero_cons, List.drop_eq_nil_of_le (by simp only; omega)]
        rfl
      have hnone : c.pending = [] := hpending c.index (Nat.le_refl _)
      rw [hnone]
      exact ⟨rfl, hpending (c.index + 1) (Nat.le_succ _)⟩
  | case3 c hne =>
      rw [pending, ordinalsFrom_cons, wordBits_eq_cons hne]
      exact ⟨rfl, ordinalsFrom_cons _ _ _⟩

/-! ### All calls -/

theorem pending_after (count : Nat) : (c.after count).pending = c.pending.drop count := by
  induction count generalizing c with
  | zero => rfl
  | succ count ih => rw [after, ih, (next_pending c).2, List.drop_tail]

/-- The answers to any number of calls, those behind the last ordinal included. -/
theorem next_after (count : Nat) : (c.after count).next.1 = c.pending[count]? := by
  rw [(next_pending _).1, pending_after, List.head?_drop]

/-- A run gives out what is pending. -/
theorem items_eq_pending : c.items = c.pending := by
  fun_induction items c with
  | case1 c n rest hnext ih =>
      obtain ⟨hhead, htail⟩ := next_pending c
      rw [hnext] at hhead htail
      rw [ih, htail]
      exact (List.eq_cons_of_mem_head? hhead.symm).symm
  | case2 c rest hnext =>
      have hhead := (next_pending c).1
      rw [hnext] at hhead
      exact (List.head?_eq_none_iff.mp hhead.symm).symm

end Cursor

variable (s : ColumnSet)

theorem pending_cursor : s.cursor.pending = s.toList := by
  cases hwords : s.words with
  | nil => simp [Cursor.pending, cursor, toList, hwords, ordinalsFrom]
  | cons w ws => simp [Cursor.pending, cursor, toList, hwords, ordinalsFrom]

/-- A cursor gives out the list of the set. -/
theorem items_cursor : s.cursor.items = s.toList :=
  (Cursor.items_eq_pending _).trans (pending_cursor s)

/-! ### Moved sets -/

/-- Moving a set moves its list. -/
theorem toList_shift (offset : Nat) : (s.shift offset).toList = s.toList.map (· + offset) := by
  refine (pairwise_toList _).eq_of_mem_iff ?_ fun n => ?_
  · rw [List.pairwise_map]
    exact s.pairwise_toList.imp fun h => Nat.add_lt_add_right h offset
  · rw [mem_toList, shift, contains_ofList, decide_eq_true_eq]

theorem toList_inj {s t : ColumnSet} : s.toList = t.toList ↔ s = t := by
  refine ⟨fun h => ?_, congrArg toList⟩
  rw [← ofList_toList s, h, ofList_toList]

theorem shift_inj {s t : ColumnSet} {offset : Nat} : s.shift offset = t.shift offset ↔ s = t := by
  rw [← toList_inj, toList_shift, toList_shift, List.map_inj_right fun m n h => by omega, toList_inj]

/-- **A cursor enumerates its set.** It gives out the list of the set: as many ordinals as the set has,
in strictly ascending order, exactly those of the set, and from then on nothing, however often it is
asked. Adding them to the empty set, or setting their bits in no words, gives the set back. A set that
is moved up has the ordinals that lie `offset` below in the other; its cursor gives out the moved
ordinals, so there are as many, different sets stay different, and two moves are one by the sum of the
offsets. -/
theorem cursor_enumerates :
    s.cursor.items = s.toList ∧ s.cursor.items.length = s.size ∧
      s.cursor.items.Pairwise (· < ·) ∧ (∀ n, n ∈ s.cursor.items ↔ s.contains n = true) ∧
      (∀ count, (s.cursor.after count).next.1 = s.cursor.items[count]?) ∧
      ofList s.cursor.items = s ∧ s.cursor.items.foldl setBit [] = s.words ∧
      ∀ offset, (∀ n, (s.shift offset).contains n = true ↔
          offset ≤ n ∧ s.contains (n - offset) = true) ∧
        (s.shift offset).cursor.items = s.cursor.items.map (· + offset) ∧
        (s.shift offset).size = s.size ∧ (∀ t, s.shift offset = t.shift offset ↔ s = t) ∧
        ∀ further, (s.shift offset).shift further = s.shift (offset + further) := by
  have hitems := s.items_cursor
  refine ⟨hitems, ?_, ?_, ?_, ?_, ?_, ?_, fun offset => ⟨?_, ?_, ?_, fun t => shift_inj, ?_⟩⟩
  · rw [hitems, length_toList]
  · rw [hitems]
    exact s.pairwise_toList
  · intro n
    rw [hitems, mem_toList]
  · intro count
    rw [Cursor.next_after, Cursor.items_eq_pending]
  · rw [hitems, ofList_toList]
  · rw [hitems, ← words_ofList, ofList_toList]
  · intro n
    rw [contains_shift, Bool.and_eq_true, decide_eq_true_eq]
  · rw [hitems, items_cursor, toList_shift]
  · rw [← length_toList, toList_shift, List.length_map, length_toList]
  · exact s.shift_shift offset

/-- The last bit of a word, the first one of the next, and a word without bits before the last. -/
example : (ofList [1, 63, 64, 200]).cursor.items = [1, 63, 64, 200] := by
  rw [items_cursor]
  decide

end ColumnSet

end QueryAnalysis
