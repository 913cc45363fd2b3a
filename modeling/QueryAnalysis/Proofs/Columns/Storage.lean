import Mathlib.Data.List.Basic
import QueryAnalysis.Columns

/-!
# How column sets are stored

A column set is stored as words of which the last is not zero. The set operations are defined by
trimming whatever words they compute, but a set that grows needs no trimming: adding an ordinal and
uniting two sets leave a last word with a bit in it. This module gives, for each operation, the words
that are stored in the end, computed without work that is not needed (`words_insert`, `words_erase`,
`words_union`, `words_inter`, `words_diff`).

All of them are proved in one way. Words without a zero at the end are determined by what is read from
them (`eq_of_getElem?_getD_eq`), so it is enough to compare single words and to look at the last one.
-/

namespace QueryAnalysis

variable {ws vs : List UInt64} {n : Nat}

/-! ### The last word -/

theorem getLast?_ne_zero_iff : ws.getLast? ≠ some 0 ↔ ws = [] ∨ ws[ws.length - 1]?.getD 0 ≠ 0 := by
  rw [List.getLast?_eq_getElem?]
  cases ws with
  | nil => simp
  | cons w ws => simp

/-- Words of which the last is not zero stay as they are when they are trimmed. -/
theorem trimWords_of_getLast? (h : ws.getLast? ≠ some 0) : trimWords ws = ws :=
  eq_of_getElem?_getD_eq (getLast?_trimWords ws) h fun i => getElem?_trimWords ws i

theorem wordOfBit_ne_zero {j : Nat} (h : j < 64) : wordOfBit j ≠ 0 := by
  intro hzero
  have hbit := wordBit_wordOfBit (i := j) h
  simp [hzero] at hbit

/-- A bit that is set in one of two words is set in their disjunction. -/
theorem or_ne_zero {v w : UInt64} (h : v ≠ 0 ∨ w ≠ 0) : v ||| w ≠ 0 := by
  intro hzero
  have hbits : ∀ j, wordBit v j = false ∧ wordBit w j = false := by
    intro j
    have hj := wordBit_or v w j
    rw [hzero, wordBit_zero] at hj
    simpa using hj.symm
  rcases h with hv | hw
  · exact hv (eq_of_wordBit_eq fun j _ => by simp [(hbits j).1])
  · exact hw (eq_of_wordBit_eq fun j _ => by simp [(hbits j).2])

/-! ### Single bits -/

/-- Sets the bit of an ordinal, after appending zero words up to the one that holds it. -/
def setBit (ws : List UInt64) (n : Nat) : List UInt64 :=
  (ws ++ List.replicate (n / 64 + 1 - ws.length) 0).modify (n / 64) (· ||| wordOfBit (n % 64))

/-- Clears the bit of an ordinal and trims the words, if there is a word that holds it. -/
def clearBit (ws : List UInt64) (n : Nat) : List UInt64 :=
  if n / 64 < ws.length then trimWords (ws.modify (n / 64) (· &&& ~~~wordOfBit (n % 64))) else ws

@[simp] theorem length_setBit (ws : List UInt64) (n : Nat) :
    (setBit ws n).length = max ws.length (n / 64 + 1) := by
  simp only [setBit, List.length_modify, List.length_append, List.length_replicate]
  omega

theorem getElem?_setBit (ws : List UInt64) (n i : Nat) :
    (setBit ws n)[i]?.getD 0
      = if i = n / 64 then ws[i]?.getD 0 ||| wordOfBit (n % 64) else ws[i]?.getD 0 := by
  have hgrown : ∀ k, (ws ++ List.replicate k 0)[i]?.getD 0 = ws[i]?.getD 0 := by
    intro k
    rw [List.getElem?_append, List.getElem?_replicate]
    split
    · rfl
    · next h =>
        rw [List.getElem?_eq_none (by omega)]
        split <;> rfl
  rw [setBit, List.getElem?_modify]
  by_cases hi : i = n / 64
  · subst hi
    have hlt : n / 64 < (ws ++ List.replicate (n / 64 + 1 - ws.length) 0).length := by
      simp only [List.length_append, List.length_replicate]
      omega
    rw [if_pos rfl, ← hgrown (n / 64 + 1 - ws.length), List.getElem?_eq_getElem hlt]
    simp
  · rw [if_neg hi, ← hgrown (n / 64 + 1 - ws.length)]
    simp [Ne.symm hi]

/-- After a bit was set the last word is not zero. -/
theorem getLast?_setBit (h : ws.getLast? ≠ some 0) (n : Nat) : (setBit ws n).getLast? ≠ some 0 := by
  rw [getLast?_ne_zero_iff]
  right
  rw [getElem?_setBit, length_setBit]
  split
  · exact or_ne_zero (.inr (wordOfBit_ne_zero (by omega)))
  · next hlast =>
      -- The last word is one that was there before.
      have hlen : max ws.length (n / 64 + 1) - 1 = ws.length - 1 := by omega
      have hne : ws ≠ [] := by
        intro hnil
        simp [hnil] at hlast
      rw [hlen]
      exact (getLast?_ne_zero_iff.mp h).resolve_left hne

/-! ### Two lists of words -/

theorem length_combineWords (f : UInt64 → UInt64 → UInt64) (ws vs : List UInt64) :
    (combineWords f ws vs).length = max ws.length vs.length := by
  unfold combineWords
  induction ws generalizing vs with
  | nil => simp
  | cons w ws ih =>
      cases vs with
      | nil => simp
      | cons v vs =>
          rw [List.zipWithAll_cons_cons, List.length_cons, ih]
          simp only [List.length_cons]
          omega

/-- The disjunction of words of which the last are not zero has no zero at the end either. -/
theorem getLast?_combineWords_or (hw : ws.getLast? ≠ some 0) (hv : vs.getLast? ≠ some 0) :
    (combineWords (fun x y => x ||| y) ws vs).getLast? ≠ some 0 := by
  rw [getLast?_ne_zero_iff] at hw hv ⊢
  rw [length_combineWords, getElem?_combineWords (by decide)]
  -- The last word stems from the last word of the longer list.
  rcases Nat.le_total ws.length vs.length with hle | hle
  · rw [Nat.max_eq_right hle]
    rcases hv with rfl | hv
    · obtain rfl : ws = [] := List.length_eq_zero_iff.mp (Nat.le_zero.mp hle)
      exact .inl rfl
    · exact .inr (or_ne_zero (.inr hv))
  · rw [Nat.max_eq_left hle]
    rcases hw with rfl | hw
    · obtain rfl : vs = [] := List.length_eq_zero_iff.mp (Nat.le_zero.mp hle)
      exact .inl rfl
    · exact .inr (or_ne_zero (.inl hw))

/-- Beyond the shorter of two lists their conjunction is zero anyway. -/
theorem getElem?_zipWith_and (ws vs : List UInt64) (i : Nat) :
    (List.zipWith (fun x y => x &&& y) ws vs)[i]?.getD 0 = ws[i]?.getD 0 &&& vs[i]?.getD 0 := by
  rw [List.getElem?_zipWith]
  cases ws[i]? <;> cases vs[i]? <;> simp

/-- The words of one list without the bits of another. -/
def clearWords (ws vs : List UInt64) : List UInt64 :=
  ws.mapIdx fun i w => w &&& ~~~(vs[i]?.getD 0)

theorem getElem?_clearWords (ws vs : List UInt64) (i : Nat) :
    (clearWords ws vs)[i]?.getD 0 = ws[i]?.getD 0 &&& ~~~(vs[i]?.getD 0) := by
  rw [clearWords, List.getElem?_mapIdx]
  cases ws[i]? <;> simp

/-! ### The words of sets -/

namespace ColumnSet

variable (s t : ColumnSet)

/-- Words without a zero at the end are those of a set if their bits are the ordinals of the set. -/
theorem words_eq {s : ColumnSet} (hlast : ws.getLast? ≠ some 0)
    (hbits : ∀ n, s.contains n = wordBit (ws[n / 64]?.getD 0) (n % 64)) : s.words = ws :=
  congrArg words (ext_contains (t := ⟨ws, hlast⟩) hbits)

/-- Trimmed words are those of a set if their bits are the ordinals of the set. -/
theorem words_eq_trimWords {s : ColumnSet}
    (hbits : ∀ n, s.contains n = wordBit (ws[n / 64]?.getD 0) (n % 64)) : s.words = trimWords ws :=
  words_eq (getLast?_trimWords ws) fun n => by rw [hbits, getElem?_trimWords]

/-- An ordinal is added by setting its bit. -/
theorem words_insert (n : Nat) : (s.insert n).words = setBit s.words n := by
  refine words_eq (getLast?_setBit s.canonical n) fun m => ?_
  rw [getElem?_setBit, contains_insert, contains]
  split
  · next hword =>
      rw [wordBit_or, wordBit_wordOfBit (by omega)]
      congr 2
      simp only [eq_iff_iff]
      omega
  · next hword =>
      have hne : n ≠ m := by
        rintro rfl
        exact hword rfl
      simp [hne]

/-- An ordinal is removed by clearing its bit. -/
theorem words_erase (n : Nat) : (s.erase n).words = clearBit s.words n := by
  unfold clearBit
  split
  · next hlt =>
      refine words_eq_trimWords fun m => ?_
      rw [contains_erase, contains, List.getElem?_modify]
      by_cases hword : n / 64 = m / 64
      · rw [← hword, List.getElem?_eq_getElem hlt]
        simp only [if_true, Option.map_eq_map, Option.map_some, Option.getD_some]
        rw [wordBit_and_not (by omega), wordBit_wordOfBit (by omega)]
        congr 3
        simp only [eq_iff_iff]
        omega
      · have hne : n ≠ m := by
          rintro rfl
          exact hword rfl
        simp [hword, hne]
  · next hge =>
      -- Beyond the last word no ordinal is in the set.
      refine words_eq s.canonical fun m => ?_
      rw [contains_erase]
      by_cases hm : n = m
      · subst hm
        rw [contains, List.getElem?_eq_none (by omega)]
        simp
      · simp [hm, contains]

/-- Sets are united by the disjunction of their words. -/
theorem words_union :
    (s.union t).words = combineWords (fun x y => x ||| y) s.words t.words :=
  trimWords_of_getLast? (getLast?_combineWords_or s.canonical t.canonical)

/-- What two sets have in common lies within the shorter one. -/
theorem words_inter :
    (s.inter t).words = trimWords (List.zipWith (fun x y => x &&& y) s.words t.words) := by
  refine words_eq_trimWords fun n => ?_
  rw [contains_inter, getElem?_zipWith_and, wordBit_and]
  rfl

/-- Ordinals are taken away from a set within its own words. -/
theorem words_diff : (s.diff t).words = trimWords (clearWords s.words t.words) := by
  refine words_eq_trimWords fun n => ?_
  rw [contains_diff, getElem?_clearWords, wordBit_and_not (by omega)]
  rfl

/-- Listed ordinals are added one by one. -/
theorem words_ofList (ns : List Nat) : (ofList ns).words = ns.foldl setBit [] := by
  have hfold : ∀ s : ColumnSet, (ns.foldl insert s).words = ns.foldl setBit s.words := by
    induction ns with
    | nil => exact fun s => rfl
    | cons n ns ih =>
        intro s
        rw [List.foldl_cons, List.foldl_cons, ih, words_insert]
  exact hfold empty

theorem words_singleton (n : Nat) : (singleton n).words = setBit [] n := by
  have hsingle : singleton n = empty.insert n := ext_contains fun m => by simp
  rw [hsingle, words_insert]
  rfl

/-- The ordinals whose bits are set in some words, in ascending order. -/
def ordinals (ws : List UInt64) : List Nat :=
  ws.zipIdx.flatMap fun (w, i) => (wordBits w).map fun j => 64 * i + j

/-- The ordinals of a set are moved one by one. -/
theorem words_shift (offset : Nat) :
    (s.shift offset).words = ((ordinals s.words).map fun n => n + offset).foldl setBit [] :=
  words_ofList _

theorem words_inj {s t : ColumnSet} : s.words = t.words ↔ s = t := by
  cases s
  cases t
  simp

end ColumnSet

end QueryAnalysis
