/-!
# Sets of column ordinals

`ColumnSet` is a finite set of column ordinals: a unique key, the grouping columns of an
aggregate, the columns that a join condition compares. It is kept as 64-bit words, lowest
ordinals first, and ordinal `64 * i + j` is bit `j` of word `i`.

The words never end in a zero word. That is part of the type, so a set has one representation
and equality of values is equality of sets (`ColumnSet.ext_contains`). Every operation is
described by what `contains` answers afterwards; those equations are the interface, and nothing
outside this module looks at the words, apart from the order and the printed forms of a set,
which are defined by them.
-/

namespace QueryAnalysis

/-! ### Words -/

/-- Bit `j` of a word, for `j` below 64. -/
def wordBit (w : UInt64) (j : Nat) : Bool :=
  w.toBitVec.getLsbD j

@[simp] theorem wordBit_zero (j : Nat) : wordBit 0 j = false := by
  simp [wordBit]

@[simp] theorem wordBit_or (v w : UInt64) (j : Nat) :
    wordBit (v ||| w) j = (wordBit v j || wordBit w j) := by
  simp [wordBit]

@[simp] theorem wordBit_and (v w : UInt64) (j : Nat) :
    wordBit (v &&& w) j = (wordBit v j && wordBit w j) := by
  simp [wordBit]

theorem wordBit_and_not {j : Nat} (h : j < 64) (v w : UInt64) :
    wordBit (v &&& ~~~w) j = (wordBit v j && !wordBit w j) := by
  simp [wordBit, h]

/-- A word is determined by its bits. -/
theorem eq_of_wordBit_eq {v w : UInt64} (h : ∀ j, j < 64 → wordBit v j = wordBit w j) :
    v = w := by
  apply UInt64.toBitVec_inj.mp
  exact BitVec.eq_of_getLsbD_eq h

/-- The word whose only set bit is bit `j`, for `j` below 64. -/
def wordOfBit (j : Nat) : UInt64 :=
  UInt64.ofBitVec (BitVec.twoPow 64 j)

theorem wordBit_wordOfBit {i j : Nat} (h : j < 64) :
    wordBit (wordOfBit i) j = decide (i = j) := by
  simp [wordBit, wordOfBit, BitVec.getLsbD_twoPow]
  omega

/-- How many bits are set in a word. -/
def wordSize (w : UInt64) : Nat :=
  (List.range 64).countP (wordBit w)

/-- The positions of the bits that are set in a word, in ascending order. -/
def wordBits (w : UInt64) : List Nat :=
  if w = 0 then [] else (List.range 64).filter (wordBit w)

theorem mem_wordBits {w : UInt64} {j : Nat} : j ∈ wordBits w ↔ j < 64 ∧ wordBit w j = true := by
  unfold wordBits
  split
  · next h => simp [h]
  · simp

theorem length_wordBits (w : UInt64) : (wordBits w).length = wordSize w := by
  unfold wordBits wordSize
  split
  · next h =>
    symm
    rw [List.length_nil, List.countP_eq_zero, h]
    simp
  · rw [List.countP_eq_length_filter]

/-- Drops the zero words at the end of a list. -/
def trimWords : List UInt64 → List UInt64
  | [] => []
  | w :: ws =>
    match trimWords ws with
    | [] => if w = 0 then [] else [w]
    | v :: vs => w :: v :: vs

theorem getLast?_trimWords (ws : List UInt64) : (trimWords ws).getLast? ≠ some 0 := by
  induction ws with
  | nil => simp [trimWords]
  | cons w ws ih =>
    rw [trimWords]
    split
    · split <;> simp_all
    · next v vs h =>
      rw [h] at ih
      simpa [List.getLast?_cons_cons] using ih

/-- Trimming changes no word, if the words beyond the end are read as zero. -/
@[simp] theorem getElem?_trimWords (ws : List UInt64) (i : Nat) :
    (trimWords ws)[i]?.getD 0 = ws[i]?.getD 0 := by
  induction ws generalizing i with
  | nil => rfl
  | cons w ws ih =>
    rw [trimWords]
    split
    · next h =>
      rw [h] at ih
      split
      · next hw =>
        cases i with
        | zero => simp [hw]
        | succ i => simpa using ih i
      · cases i with
        | zero => rfl
        | succ i => simpa using ih i
    · next v vs h =>
      rw [h] at ih
      cases i with
      | zero => rfl
      | succ i => simpa using ih i

/-- Words that end in no zero word are determined by what is read from them. -/
theorem eq_of_getElem?_getD_eq {xs ys : List UInt64}
    (hx : xs.getLast? ≠ some 0) (hy : ys.getLast? ≠ some 0)
    (h : ∀ i : Nat, xs[i]?.getD 0 = ys[i]?.getD 0) : xs = ys := by
  have trim : ∀ zs : List UInt64, zs.getLast? ≠ some 0 → (∀ i : Nat, zs[i]?.getD 0 = 0) → zs = [] := by
    intro zs hz h0
    induction zs with
    | nil => rfl
    | cons z zs ih =>
      have hzs : zs = [] := by
        cases zs with
        | nil => rfl
        | cons y ys =>
          exact ih (by simpa [List.getLast?_cons_cons] using hz) fun i => by simpa using h0 (i + 1)
      have hz0 : z = 0 := by simpa using h0 0
      simp [hzs, hz0] at hz
  induction xs generalizing ys with
  | nil => exact (trim ys hy fun i => by simpa using (h i).symm).symm
  | cons x xs ih =>
    cases ys with
    | nil => exact trim _ hx fun i => by simpa using h i
    | cons y ys =>
      have hxy : x = y := by simpa using h 0
      have hxs : xs.getLast? ≠ some 0 := by
        cases xs with
        | nil => simp
        | cons z zs => simpa [List.getLast?_cons_cons] using hx
      have hys : ys.getLast? ≠ some 0 := by
        cases ys with
        | nil => simp
        | cons z zs => simpa [List.getLast?_cons_cons] using hy
      rw [hxy, ih hxs hys fun i => by simpa using h (i + 1)]

/-- Combines two lists of words position by position, reading zero beyond either end. -/
def combineWords (f : UInt64 → UInt64 → UInt64) (xs ys : List UInt64) : List UInt64 :=
  List.zipWithAll (fun x y => f (x.getD 0) (y.getD 0)) xs ys

theorem getElem?_combineWords {f : UInt64 → UInt64 → UInt64} (h : f 0 0 = 0)
    (xs ys : List UInt64) (i : Nat) :
    (combineWords f xs ys)[i]?.getD 0 = f (xs[i]?.getD 0) (ys[i]?.getD 0) := by
  simp only [combineWords, List.getElem?_zipWithAll]
  split <;> simp_all

/-! ### The type -/

/-- A finite set of column ordinals. -/
structure ColumnSet where
  /-- The set's words, lowest ordinals first. -/
  words : List UInt64
  /-- The last word is not zero, so a set has one representation. -/
  canonical : words.getLast? ≠ some 0
deriving DecidableEq

namespace ColumnSet

/-- The set whose words are `ws`, up to zero words at the end. -/
def ofWords (ws : List UInt64) : ColumnSet :=
  ⟨trimWords ws, getLast?_trimWords ws⟩

/-- Whether ordinal `n` is in the set. -/
def contains (s : ColumnSet) (n : Nat) : Bool :=
  wordBit (s.words[n / 64]?.getD 0) (n % 64)

instance : Membership Nat ColumnSet where
  mem s n := s.contains n = true

instance (n : Nat) (s : ColumnSet) : Decidable (n ∈ s) :=
  inferInstanceAs (Decidable (s.contains n = true))

theorem mem_iff_contains {n : Nat} {s : ColumnSet} : n ∈ s ↔ s.contains n = true := Iff.rfl

@[simp] theorem contains_ofWords (ws : List UInt64) (n : Nat) :
    (ofWords ws).contains n = wordBit (ws[n / 64]?.getD 0) (n % 64) := by
  simp [contains, ofWords]

/-- Two sets that answer alike are the same value. -/
theorem ext_contains {s t : ColumnSet} (h : ∀ n, s.contains n = t.contains n) : s = t := by
  have hw : s.words = t.words := by
    refine eq_of_getElem?_getD_eq s.canonical t.canonical fun i => eq_of_wordBit_eq fun j hj => ?_
    have := h (64 * i + j)
    rw [contains, contains] at this
    rwa [show (64 * i + j) / 64 = i by omega, show (64 * i + j) % 64 = j by omega] at this
  cases s
  cases t
  simp_all

/-- Two sets with the same ordinals are the same value. -/
theorem ext_mem {s t : ColumnSet} (h : ∀ n, n ∈ s ↔ n ∈ t) : s = t :=
  ext_contains fun n => Bool.eq_iff_iff.mpr (h n)

/-! ### Operations -/

/-- The set without ordinals. -/
def empty : ColumnSet := ⟨[], by simp⟩

instance : EmptyCollection ColumnSet := ⟨empty⟩

instance : Inhabited ColumnSet := ⟨empty⟩

/-- The set of one ordinal. -/
def singleton (n : Nat) : ColumnSet :=
  ofWords (List.replicate (n / 64) 0 ++ [wordOfBit (n % 64)])

/-- The ordinals that are in either set. -/
def union (s t : ColumnSet) : ColumnSet :=
  ofWords (combineWords (fun x y => x ||| y) s.words t.words)

/-- The ordinals that are in both sets. -/
def inter (s t : ColumnSet) : ColumnSet :=
  ofWords (combineWords (fun x y => x &&& y) s.words t.words)

/-- The ordinals of `s` that are not in `t`. -/
def diff (s t : ColumnSet) : ColumnSet :=
  ofWords (combineWords (fun x y => x &&& ~~~y) s.words t.words)

/-- Adds an ordinal. -/
def insert (s : ColumnSet) (n : Nat) : ColumnSet :=
  s.union (singleton n)

/-- Removes an ordinal. -/
def erase (s : ColumnSet) (n : Nat) : ColumnSet :=
  s.diff (singleton n)

/-- The set of the listed ordinals, in whatever order and however often they are listed. -/
def ofList (ns : List Nat) : ColumnSet :=
  ns.foldl insert empty

/-- The ordinals from `start` up to and without `stop`; none if `stop` is not above `start`. -/
def range (start stop : Nat) : ColumnSet :=
  ofList (List.range' start (stop - start))

/-- The ordinals in ascending order: those of the first word, then those of the next ones. -/
def toList (s : ColumnSet) : List Nat :=
  s.words.zipIdx.flatMap fun (w, i) => (wordBits w).map fun j => 64 * i + j

/-- The number of ordinals: the bits set in all words together. -/
def size (s : ColumnSet) : Nat :=
  s.words.foldr (fun w total => wordSize w + total) 0

/-- Whether the set has no ordinal. -/
def isEmpty (s : ColumnSet) : Bool :=
  s.words.isEmpty

/-- Whether every ordinal of `s` is in `t`. -/
def isSubset (s t : ColumnSet) : Bool :=
  (s.diff t).isEmpty

/-- Every ordinal moved up by `offset`. -/
def shift (s : ColumnSet) (offset : Nat) : ColumnSet :=
  ofList (s.toList.map fun n => n + offset)

instance : HasSubset ColumnSet where
  Subset s t := ∀ n, n ∈ s → n ∈ t

@[simp] theorem contains_empty (n : Nat) : empty.contains n = false := by
  simp [contains, empty]

@[simp] theorem contains_union (s t : ColumnSet) (n : Nat) :
    (s.union t).contains n = (s.contains n || t.contains n) := by
  rw [union, contains_ofWords, getElem?_combineWords (by decide), wordBit_or]
  rfl

@[simp] theorem contains_inter (s t : ColumnSet) (n : Nat) :
    (s.inter t).contains n = (s.contains n && t.contains n) := by
  rw [inter, contains_ofWords, getElem?_combineWords (by decide), wordBit_and]
  rfl

@[simp] theorem contains_diff (s t : ColumnSet) (n : Nat) :
    (s.diff t).contains n = (s.contains n && !t.contains n) := by
  rw [diff, contains_ofWords, getElem?_combineWords (by decide), wordBit_and_not (by omega)]
  rfl

@[simp] theorem contains_singleton (m n : Nat) :
    (singleton m).contains n = decide (m = n) := by
  have h : n % 64 < 64 := by omega
  simp only [singleton, contains_ofWords, List.getElem?_append, List.length_replicate,
    List.getElem?_replicate]
  split
  · next hlt =>
    simp only [Option.getD_some, wordBit_zero]
    symm
    simp
    omega
  · next hge =>
    by_cases hq : n / 64 - m / 64 = 0
    · simp [hq, wordBit_wordOfBit h]
      omega
    · have : ([wordOfBit (m % 64)] : List UInt64)[n / 64 - m / 64]? = none := by
        simp
        omega
      simp [this]
      omega

@[simp] theorem contains_insert (s : ColumnSet) (m n : Nat) :
    (s.insert m).contains n = (s.contains n || decide (m = n)) := by
  simp [insert]

@[simp] theorem contains_erase (s : ColumnSet) (m n : Nat) :
    (s.erase m).contains n = (s.contains n && !decide (m = n)) := by
  simp [erase]

theorem contains_foldl_insert (s : ColumnSet) (ns : List Nat) (n : Nat) :
    (ns.foldl insert s).contains n = (s.contains n || decide (n ∈ ns)) := by
  induction ns generalizing s with
  | nil => simp
  | cons m ns ih =>
    rw [List.foldl_cons, ih, contains_insert, Bool.or_assoc]
    congr 1
    by_cases h : m = n
    · simp [h]
    · simp [h, Ne.symm h]

@[simp] theorem contains_ofList (ns : List Nat) (n : Nat) :
    (ofList ns).contains n = decide (n ∈ ns) := by
  rw [ofList, contains_foldl_insert, contains_empty, Bool.false_or]

@[simp] theorem contains_range (start stop n : Nat) :
    (range start stop).contains n = decide (start ≤ n ∧ n < stop) := by
  rw [range, contains_ofList, decide_eq_decide, List.mem_range'_1]
  omega

/-! ### Enumeration -/

theorem mem_toList {s : ColumnSet} {n : Nat} : n ∈ s.toList ↔ s.contains n = true := by
  rw [toList, List.mem_flatMap]
  constructor
  · rintro ⟨⟨w, i⟩, hw, hn⟩
    obtain ⟨j, hj, rfl⟩ := List.mem_map.mp hn
    obtain ⟨hlt, hbit⟩ := mem_wordBits.mp hj
    have hi : s.words[i]? = some w := by simpa using List.mem_zipIdx_iff_getElem?.mp hw
    rw [contains, show (64 * i + j) / 64 = i by omega, show (64 * i + j) % 64 = j by omega, hi]
    exact hbit
  · intro h
    rw [contains] at h
    cases hw : s.words[n / 64]? with
    | none => simp [hw] at h
    | some w =>
      rw [hw] at h
      refine ⟨(w, n / 64), List.mem_zipIdx_iff_getElem?.mpr (by simpa using hw), ?_⟩
      exact List.mem_map.mpr ⟨n % 64, mem_wordBits.mpr ⟨by omega, h⟩, by omega⟩

theorem pairwise_wordBits (w : UInt64) : (wordBits w).Pairwise (· < ·) := by
  unfold wordBits
  split
  · exact .nil
  · exact List.pairwise_lt_range.filter _

/-- The list of a set is strictly ascending. -/
theorem pairwise_toList (s : ColumnSet) : s.toList.Pairwise (· < ·) := by
  rw [toList, List.pairwise_flatMap]
  constructor
  · rintro ⟨w, i⟩ -
    rw [List.pairwise_map]
    exact (pairwise_wordBits w).imp fun h => by omega
  · have hidx : (s.words.zipIdx.map Prod.snd).Pairwise (· < ·) := by
      rw [List.zipIdx_map_snd]
      exact List.pairwise_lt_range'
    refine (List.pairwise_map.mp hidx).imp fun hlt m hm n hn => ?_
    obtain ⟨a, ha, rfl⟩ := List.mem_map.mp hm
    obtain ⟨b, -, rfl⟩ := List.mem_map.mp hn
    have := (mem_wordBits.mp ha).1
    omega

@[simp] theorem length_toList (s : ColumnSet) : s.toList.length = s.size := by
  have h : ∀ (ws : List UInt64) (start : Nat),
      ((ws.zipIdx start).flatMap fun (w, i) => (wordBits w).map fun j => 64 * i + j).length
        = ws.foldr (fun w total => wordSize w + total) 0 := by
    intro ws
    induction ws with
    | nil => intro start; rfl
    | cons w ws ih =>
      intro start
      rw [List.zipIdx_cons, List.flatMap_cons, List.length_append, List.length_map,
        length_wordBits, ih, List.foldr_cons]
  exact h s.words 0

@[simp] theorem ofList_toList (s : ColumnSet) : ofList s.toList = s := by
  apply ext_contains
  intro n
  rw [contains_ofList]
  by_cases h : s.contains n = true
  · simp [h, mem_toList]
  · simp [h, mem_toList]

/-- Only the set without ordinals is empty. -/
theorem isEmpty_iff {s : ColumnSet} : s.isEmpty = true ↔ s = empty := by
  rw [isEmpty, List.isEmpty_iff]
  constructor
  · intro h
    apply ext_contains
    intro n
    rw [contains, h]
    simp
  · intro h
    rw [h]
    rfl

theorem isSubset_iff {s t : ColumnSet} : s.isSubset t = true ↔ s ⊆ t := by
  rw [isSubset, isEmpty_iff]
  constructor
  · intro h n hn
    have hd : (s.diff t).contains n = false := by rw [h, contains_empty]
    rw [contains_diff, mem_iff_contains.mp hn] at hd
    simpa [mem_iff_contains] using hd
  · intro h
    apply ext_contains
    intro n
    rw [contains_diff, contains_empty]
    cases hn : s.contains n with
    | false => rfl
    | true => simp [mem_iff_contains.mp (h n hn)]

@[simp] theorem contains_shift (s : ColumnSet) (offset n : Nat) :
    (s.shift offset).contains n = (decide (offset ≤ n) && s.contains (n - offset)) := by
  rw [shift, contains_ofList, Bool.eq_iff_iff]
  simp only [decide_eq_true_eq, List.mem_map, mem_toList, Bool.and_eq_true]
  constructor
  · rintro ⟨m, hm, rfl⟩
    exact ⟨by omega, by rwa [Nat.add_sub_cancel]⟩
  · rintro ⟨hle, hn⟩
    exact ⟨n - offset, hn, by omega⟩

@[simp] theorem shift_zero (s : ColumnSet) : s.shift 0 = s := by
  apply ext_contains
  intro n
  simp

/-- Moving up twice is moving up by both offsets. -/
theorem shift_shift (s : ColumnSet) (first second : Nat) :
    (s.shift first).shift second = s.shift (first + second) := by
  apply ext_contains
  intro n
  rw [contains_shift, contains_shift, contains_shift, ← Bool.and_assoc, ← Bool.decide_and,
    Nat.sub_sub, Nat.add_comm second]
  congr 2
  rw [eq_iff_iff]
  omega

/-! ### Order and text -/

/-- Sets are ordered by their words, lowest ordinals first; a set whose words begin another's is
the smaller one. -/
instance : Ord ColumnSet where
  compare s t := compare s.words t.words

/-- The ordinals in braces, as a plan prints them. -/
def text (s : ColumnSet) : String :=
  "\x7b" ++ ", ".intercalate (s.toList.map fun n => toString n) ++ "\x7d"

/-- The set as its words, in decimal, as error messages show it. -/
def wordsText (s : ColumnSet) : String :=
  "ColumnMask \x7b words: [" ++ ", ".intercalate (s.words.map fun w => toString w.toNat) ++ "] \x7d"

end ColumnSet

end QueryAnalysis
