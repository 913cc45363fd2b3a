import Mathlib.Order.Interval.Finset.Nat
import QueryAnalysis.Columns.Program
import QueryAnalysis.Proofs.Columns.Storage

/-!
# Programs over column sets refine finite sets

A program over column sets can be read in two other ways: its registers can hold finite sets of
natural numbers, on which the operations are those of set theory (`ColumnSet.sets`), and they can hold
bare words, which an operation trims only where it may leave a zero word at the end
(`ColumnSet.storage`). `ColumnSet.Refines` says that the three kinds of registers agree. One
assignment keeps it, so every program does, and a column set is known by its ordinals however it came
about.
-/

namespace QueryAnalysis.ColumnSet

/-! ### The finite set of the ordinals -/

/-- The ordinals of a column set as a finite set. -/
def toFinset (s : ColumnSet) : Finset Nat :=
  s.toList.toFinset

section

variable {s t : ColumnSet} {n : Nat}

@[simp] theorem mem_toFinset : n ∈ s.toFinset ↔ s.contains n = true := by
  rw [toFinset, List.mem_toFinset, mem_toList]

theorem toFinset_inj : s.toFinset = t.toFinset ↔ s = t := by
  refine ⟨fun h => ext_contains fun n => ?_, congrArg toFinset⟩
  rw [Bool.eq_iff_iff, ← mem_toFinset, h, mem_toFinset]

theorem toFinset_subset_iff : s.toFinset ⊆ t.toFinset ↔ s.isSubset t = true := by
  rw [isSubset_iff]
  exact ⟨fun h n hn => mem_toFinset.mp (h (mem_toFinset.mpr hn)),
    fun h n hn => mem_toFinset.mpr (h n (mem_toFinset.mp hn))⟩

theorem nodup_toList (s : ColumnSet) : s.toList.Nodup :=
  s.pairwise_toList.imp fun h => Nat.ne_of_lt h

theorem card_toFinset (s : ColumnSet) : s.toFinset.card = s.size := by
  rw [toFinset, List.toFinset_card_of_nodup s.nodup_toList, length_toList]

@[simp] theorem toFinset_empty : empty.toFinset = ∅ := rfl

@[simp] theorem toFinset_singleton (n : Nat) : (singleton n).toFinset = {n} := by
  ext m
  simp [eq_comm]

@[simp] theorem toFinset_range (start stop : Nat) :
    (range start stop).toFinset = Finset.Ico start stop := by
  ext m
  simp

@[simp] theorem toFinset_ofList (ns : List Nat) : (ofList ns).toFinset = ns.toFinset := by
  ext m
  simp

/-- A set of different ordinals has as many of them as are listed. -/
theorem size_ofList {ns : List Nat} (h : ns.Nodup) : (ofList ns).size = ns.length := by
  rw [← card_toFinset, toFinset_ofList, List.toFinset_card_of_nodup h]

@[simp] theorem toFinset_union (s t : ColumnSet) :
    (s.union t).toFinset = s.toFinset ∪ t.toFinset := by
  ext m
  simp

@[simp] theorem toFinset_inter (s t : ColumnSet) :
    (s.inter t).toFinset = s.toFinset ∩ t.toFinset := by
  ext m
  simp

@[simp] theorem toFinset_diff (s t : ColumnSet) :
    (s.diff t).toFinset = s.toFinset \ t.toFinset := by
  ext m
  simp

@[simp] theorem toFinset_insert (s : ColumnSet) (n : Nat) :
    (s.insert n).toFinset = Insert.insert n s.toFinset := by
  ext m
  simp only [mem_toFinset, contains_insert, Finset.mem_insert, Bool.or_eq_true, decide_eq_true_eq]
  rw [or_comm, eq_comm]

@[simp] theorem toFinset_erase (s : ColumnSet) (n : Nat) :
    (s.erase n).toFinset = s.toFinset.erase n := by
  ext m
  simp only [mem_toFinset, contains_erase, Finset.mem_erase, Bool.and_eq_true, Bool.not_eq_true',
    decide_eq_false_iff_not]
  rw [and_comm, eq_comm]

@[simp] theorem toFinset_shift (s : ColumnSet) (offset : Nat) :
    (s.shift offset).toFinset = s.toFinset.image fun n => n + offset := by
  ext m
  simp only [mem_toFinset, contains_shift, Finset.mem_image, Bool.and_eq_true, decide_eq_true_eq]
  constructor
  · intro h
    exact ⟨m - offset, h.2, Nat.sub_add_cancel h.1⟩
  · rintro ⟨n, hn, rfl⟩
    exact ⟨Nat.le_add_left offset n, by rwa [Nat.add_sub_cancel]⟩

end

/-! ### The two other readings -/

/-- The finite set that an assignment puts into its register. -/
def Assignment.setValue (a : Assignment) (sets : String → Finset Nat) : Finset Nat :=
  match a.operation with
  | .new => ∅
  | .singleton n => {n}
  | .range start stop => Finset.Ico start stop
  | .ofList ns => ns.toFinset
  | .union x y => sets x ∪ sets y
  | .inter x y => sets x ∩ sets y
  | .diff x y => sets x \ sets y
  | .shift x offset => (sets x).image fun n => n + offset
  | .insert n => Insert.insert n (sets a.target)
  | .erase n => (sets a.target).erase n

/-- The words that an assignment puts into its register. -/
def Assignment.wordsValue (a : Assignment) (words : String → List UInt64) : List UInt64 :=
  match a.operation with
  | .new => []
  | .singleton n => setBit [] n
  | .range start stop => (List.range' start (stop - start)).foldl setBit []
  | .ofList ns => ns.foldl setBit []
  | .union x y => combineWords (fun v w => v ||| w) (words x) (words y)
  | .inter x y => trimWords (List.zipWith (fun v w => v &&& w) (words x) (words y))
  | .diff x y => trimWords (clearWords (words x) (words y))
  | .shift x offset => ((ordinals (words x)).map fun n => n + offset).foldl setBit []
  | .insert n => setBit (words a.target) n
  | .erase n => clearBit (words a.target) n

/-- The finite sets that assignments put into registers, which are empty at first. -/
def sets (assignments : List Assignment) : String → Finset Nat :=
  assignments.foldl (fun current a => Function.update current a.target (a.setValue current))
    fun _ => ∅

/-- The words that assignments put into registers, which are empty at first. -/
def storage (assignments : List Assignment) : String → List UInt64 :=
  assignments.foldl (fun current a => Function.update current a.target (a.wordsValue current))
    fun _ => []

/-! ### Agreement -/

/-- The registers hold the given words, and the ordinals of the given finite sets. -/
structure Refines (registers : Registers) (words : String → List UInt64)
    (sets : String → Finset Nat) : Prop where
  words_eq : ∀ r, (registers r).words = words r
  toFinset_eq : ∀ r, (registers r).toFinset = sets r

section

variable {registers : Registers} {words : String → List UInt64} {sets : String → Finset Nat}

theorem Assignment.run_apply (a : Assignment) (r : String) :
    a.run registers r = if r = a.target then a.value registers else registers r := rfl

theorem Refines.words_value (h : Refines registers words sets) (a : Assignment) :
    (a.value registers).words = a.wordsValue words := by
  obtain ⟨target, operation⟩ := a
  cases operation with
  | new => rfl
  | singleton n => exact words_singleton n
  | range start stop => exact words_ofList _
  | ofList ns => exact words_ofList ns
  | union x y => simp [Assignment.value, Assignment.wordsValue, words_union, h.words_eq]
  | inter x y => simp [Assignment.value, Assignment.wordsValue, words_inter, h.words_eq]
  | diff x y => simp [Assignment.value, Assignment.wordsValue, words_diff, h.words_eq]
  | shift x offset => simp [Assignment.value, Assignment.wordsValue, words_shift, h.words_eq]
  | insert n => simp [Assignment.value, Assignment.wordsValue, words_insert, h.words_eq]
  | erase n => simp [Assignment.value, Assignment.wordsValue, words_erase, h.words_eq]

theorem Refines.toFinset_value (h : Refines registers words sets) (a : Assignment) :
    (a.value registers).toFinset = a.setValue sets := by
  obtain ⟨target, operation⟩ := a
  cases operation <;> simp [Assignment.value, Assignment.setValue, h.toFinset_eq]

/-- One assignment keeps the agreement. -/
theorem Refines.assign (h : Refines registers words sets) (a : Assignment) :
    Refines (a.run registers) (Function.update words a.target (a.wordsValue words))
      (Function.update sets a.target (a.setValue sets)) where
  words_eq r := by
    rw [Assignment.run_apply, Function.update_apply]
    split
    · exact h.words_value a
    · exact h.words_eq r
  toFinset_eq r := by
    rw [Assignment.run_apply, Function.update_apply]
    split
    · exact h.toFinset_value a
    · exact h.toFinset_eq r

end

/-- Every program keeps the agreement. -/
theorem refines_run (assignments : List Assignment) :
    Refines (run assignments initial) (storage assignments) (sets assignments) := by
  have hfold : ∀ {registers words sets}, Refines registers words sets →
      Refines (run assignments registers)
        (assignments.foldl (fun current a =>
          Function.update current a.target (a.wordsValue current)) words)
        (assignments.foldl (fun current a =>
          Function.update current a.target (a.setValue current)) sets) := by
    induction assignments with
    | nil => exact fun h => h
    | cons a assignments ih => exact fun h => ih (h.assign a)
  exact hfold ⟨fun _ => rfl, fun _ => rfl⟩

/-- **Column sets refine finite sets of ordinals.** Whatever programs made them, column sets are stored
as words of which the last is not zero, they hold the ordinals of the finite sets that the programs
make, they and their words are equal just if those finite sets are, and inclusion, emptiness and size
are those of the finite sets. -/
theorem run_refines_finsets (p q : List Assignment) (a b : String) :
    (storage p a).getLast? ≠ some 0 ∧ (run p initial a).words = storage p a ∧
      (∀ n, (run p initial a).contains n = true ↔ n ∈ sets p a) ∧
      (run p initial a = run q initial b ↔ sets p a = sets q b) ∧
      (storage p a = storage q b ↔ sets p a = sets q b) ∧
      ((run p initial a).isSubset (run q initial b) = true ↔ sets p a ⊆ sets q b) ∧
      ((run p initial a).isEmpty = true ↔ sets p a = ∅) ∧
      (run p initial a).size = (sets p a).card := by
  have hp := refines_run p
  have hq := refines_run q
  have heq : run p initial a = run q initial b ↔ sets p a = sets q b := by
    rw [← hp.toFinset_eq, ← hq.toFinset_eq, toFinset_inj]
  refine ⟨?_, hp.words_eq a, ?_, heq, ?_, ?_, ?_, ?_⟩
  · rw [← hp.words_eq]
    exact (run p initial a).canonical
  · intro n
    rw [← hp.toFinset_eq, mem_toFinset]
  · rw [← heq, ← hp.words_eq, ← hq.words_eq, words_inj]
  · rw [← hp.toFinset_eq, ← hq.toFinset_eq, toFinset_subset_iff]
  · rw [← hp.toFinset_eq, isEmpty_iff, ← toFinset_inj, toFinset_empty]
  · rw [← hp.toFinset_eq, card_toFinset]

/-- A set that once held an ordinal beyond the first word is the one that never did. -/
example :
    run [⟨"a", .singleton 200⟩, ⟨"a", .insert 2⟩, ⟨"a", .erase 200⟩] initial "a" = singleton 2 := by
  decide

end QueryAnalysis.ColumnSet
