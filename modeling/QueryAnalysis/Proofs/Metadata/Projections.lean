import QueryAnalysis.Proofs.Columns.Programs
import QueryAnalysis.Proofs.Metadata.Agreement

/-!
# The keys of a projection

A projection carries a key of its input to the places of its output at which the key's columns stand.
Each column goes to the last place that it is passed on to (`UniqueKeys.outputOf?_eq_some_iff`), so a
column that is passed on several times has one place in keys, different columns have different ones, and
a column that is not passed on has none. What a key is carried to can therefore be read backwards, and
the key is found again with all its columns (`UniqueKeys.projectKey?_eq_some_iff`).

So the keys of a projection are those of its input that it passes on entirely, each of them once.
-/

namespace QueryAnalysis

/-- In a set of places of a projection's output all columns are passed on, and in the input they are
those of the key. -/
structure Scalar.Carries (columns : List Scalar) (key out : ColumnSet) : Prop where
  passed : ∀ j ∈ out, ∃ i, columns[j]? = some (.column i)
  mem_iff : ∀ i, i ∈ key ↔ ∃ j ∈ out, columns[j]? = some (.column i)

/-- Two keys that are carried to the same places are the same. -/
theorem Scalar.Carries.eq {columns : List Scalar} {key key' out : ColumnSet}
    (h : Carries columns key out) (h' : Carries columns key' out) : key = key' := by
  apply ColumnSet.ext_mem
  intro i
  exact (h.mem_iff i).trans (h'.mem_iff i).symm

/-- Of a key that is carried somewhere all columns are passed on. -/
theorem Scalar.Carries.passed_of_mem {columns : List Scalar} {key out : ColumnSet}
    (h : Carries columns key out) : ∀ i ∈ key, .column i ∈ columns := by
  intro i hi
  obtain ⟨j, -, hcolumn⟩ := (h.mem_iff i).mp hi
  exact List.mem_of_getElem? hcolumn

/-- At no later place stands what stands at this one. -/
def Scalar.IsLastPlace (columns : List Scalar) (j : Nat) : Prop :=
  ∀ j', j < j' → columns[j']? ≠ columns[j]?

namespace UniqueKeys

variable {columns : List Scalar} {key out : ColumnSet}

/-! ### Where a column goes -/

/-- The columns that are passed on are listed in the order of their places. -/
theorem pairwise_passedColumns (columns : List Scalar) :
    (passedColumns columns).Pairwise fun p p' => p.2 < p'.2 := by
  refine List.Pairwise.filterMap _ ?_ (pairwise_zipIdx columns)
  intro entry entry' hlt p hp p' hp'
  split at hp
  · split at hp'
    · obtain rfl := Option.some.inj hp
      obtain rfl := Option.some.inj hp'
      exact hlt
    · exact absurd hp' (by simp)
  · exact absurd hp (by simp)

theorem isLastPlace_of_outputOf? {i j : Nat} (h : outputOf? columns i = some j) :
    Scalar.IsLastPlace columns j := by
  intro j' hlt hsame
  have hcolumn := getElem?_of_outputOf? h
  -- The look-up goes from the last place to the first one, so it would have met the later place.
  obtain ⟨before, after, hsplit, hbefore⟩ := List.lookup_eq_some_iff.mp h
  have hordered : (before ++ (i, j) :: after).Pairwise fun p p' => p'.2 < p.2 := by
    rw [← hsplit, List.pairwise_reverse]
    exact pairwise_passedColumns columns
  have hmem : (i, j') ∈ before ++ (i, j) :: after := by
    rw [← hsplit, List.mem_reverse]
    exact mem_passedColumns.mpr (hsame.trans hcolumn)
  rcases List.mem_append.mp hmem with hmem | hmem
  · exact absurd (hbefore _ hmem) (by simp)
  · rcases List.mem_cons.mp hmem with heq | hmem
    · exact absurd (congrArg Prod.snd heq) (Nat.ne_of_gt hlt)
    · have hafter := List.rel_of_pairwise_cons (List.pairwise_append.mp hordered).2.1 hmem
      exact absurd hafter (Nat.not_lt.mpr (Nat.le_of_lt hlt))

/-- A column goes to the last place that it is passed on to. -/
theorem outputOf?_eq_some_iff {i j : Nat} :
    outputOf? columns i = some j ↔
      columns[j]? = some (.column i) ∧ Scalar.IsLastPlace columns j := by
  refine ⟨fun h => ⟨getElem?_of_outputOf? h, isLastPlace_of_outputOf? h⟩, ?_⟩
  intro ⟨hcolumn, hlast⟩
  obtain ⟨out, hout⟩ := exists_outputOf? hcolumn
  have hcolumn' := getElem?_of_outputOf? hout
  rcases Nat.lt_trichotomy j out with hlt | rfl | hgt
  · exact absurd (hcolumn'.trans hcolumn.symm) (hlast out hlt)
  · exact hout
  · exact absurd (hcolumn.trans hcolumn'.symm) (isLastPlace_of_outputOf? hout j hgt)

/-! ### Where a key goes -/

theorem exists_of_mem_projectKey? (h : projectKey? columns key = some out) {j : Nat} (hj : j ∈ out) :
    ∃ i ∈ key, outputOf? columns i = some j := by
  obtain ⟨places, hplaces, rfl⟩ := Option.map_eq_some_iff.mp h
  obtain ⟨i, hi, hout⟩ := exists_of_forall₂ (forall₂_of_mapM_eq_some hplaces).flip j
    (by simpa [ColumnSet.mem_iff_contains] using hj)
  exact ⟨i, ColumnSet.mem_toList.mp hi, hout⟩

theorem carries_of_projectKey? (h : projectKey? columns key = some out) :
    Scalar.Carries columns key out where
  passed j hj := by
    obtain ⟨i, -, hout⟩ := exists_of_mem_projectKey? h hj
    exact ⟨i, getElem?_of_outputOf? hout⟩
  mem_iff i := by
    refine ⟨passed_of_projectKey? h i, ?_⟩
    intro ⟨j, hj, hcolumn⟩
    obtain ⟨i', hi', hout⟩ := exists_of_mem_projectKey? h hj
    have hsame := (getElem?_of_outputOf? hout).symm.trans hcolumn
    exact Scalar.column.inj (Option.some.inj hsame) ▸ hi'

/-- The places that a key is carried to are the last ones of its columns. -/
theorem mem_iff_of_projectKey? (h : projectKey? columns key = some out) {j : Nat} :
    j ∈ out ↔ ∃ i ∈ key, outputOf? columns i = some j := by
  refine ⟨exists_of_mem_projectKey? h, ?_⟩
  intro ⟨i, hi, hout⟩
  obtain ⟨j', hj', hcolumn⟩ := passed_of_projectKey? h i hi
  obtain ⟨i', -, hout'⟩ := exists_of_mem_projectKey? h hj'
  have hsame := (getElem?_of_outputOf? hout').symm.trans hcolumn
  obtain rfl := Scalar.column.inj (Option.some.inj hsame)
  exact Option.some.inj (hout.symm.trans hout') ▸ hj'

/-- A key all of whose columns are passed on is carried somewhere. -/
theorem exists_projectKey?_of_passed (h : ∀ i ∈ key, .column i ∈ columns) :
    ∃ out, projectKey? columns key = some out := by
  have hplace : ∀ i ∈ key.toList, ∃ j, outputOf? columns i = some j := by
    intro i hi
    obtain ⟨j, hcolumn⟩ := List.mem_iff_getElem?.mp (h i (ColumnSet.mem_toList.mp hi))
    exact exists_outputOf? hcolumn
  obtain ⟨places, hplaces⟩ := exists_mapM_eq_some hplace
  exact ⟨.ofList places, by rw [projectKey?, hplaces, Option.map_some]⟩

/-- A key is carried to the last places of its columns, and to no others. -/
theorem projectKey?_eq_some_iff :
    projectKey? columns key = some out ↔
      Scalar.Carries columns key out ∧ ∀ j ∈ out, Scalar.IsLastPlace columns j := by
  constructor
  · intro h
    refine ⟨carries_of_projectKey? h, fun j hj => ?_⟩
    obtain ⟨i, -, hout⟩ := exists_of_mem_projectKey? h hj
    exact isLastPlace_of_outputOf? hout
  · intro ⟨hcarries, hlast⟩
    obtain ⟨out', hout'⟩ := exists_projectKey?_of_passed hcarries.passed_of_mem
    have hsame : out' = out := by
      apply ColumnSet.ext_mem
      intro j
      refine (mem_iff_of_projectKey? hout').trans ⟨?_, fun hj => ?_⟩
      · intro ⟨i, hi, hplace⟩
        obtain ⟨j', hj', hcolumn⟩ := (hcarries.mem_iff i).mp hi
        have hplace' := outputOf?_eq_some_iff.mpr ⟨hcolumn, hlast j' hj'⟩
        exact Option.some.inj (hplace.symm.trans hplace') ▸ hj'
      · obtain ⟨i, hcolumn⟩ := hcarries.passed j hj
        exact ⟨i, (hcarries.mem_iff i).mpr ⟨j, hj, hcolumn⟩,
          outputOf?_eq_some_iff.mpr ⟨hcolumn, hlast j hj⟩⟩
    exact hsame ▸ hout'

/-- Different columns go to different places. -/
theorem biUnique_outputOf? (columns : List Scalar) :
    Relator.BiUnique fun i j => outputOf? columns i = some j := by
  constructor
  · intro i i' j hi hi'
    have hsame := (getElem?_of_outputOf? hi).symm.trans (getElem?_of_outputOf? hi')
    exact Scalar.column.inj (Option.some.inj hsame)
  · intro i j j' hj hj'
    exact Option.some.inj (hj.symm.trans hj')

/-- A key is carried to as many places as it has columns. -/
theorem size_of_projectKey? (h : projectKey? columns key = some out) : out.size = key.size := by
  obtain ⟨places, hplaces, rfl⟩ := Option.map_eq_some_iff.mp h
  have hcorrespond := forall₂_of_mapM_eq_some hplaces
  have hnodup : places.Nodup :=
    (List.rel_nodup (biUnique_outputOf? columns) hcorrespond).mp key.nodup_toList
  calc (ColumnSet.ofList places).size = places.length := ColumnSet.size_ofList hnodup
    _ = key.toList.length := hcorrespond.length_eq.symm
    _ = key.size := key.length_toList

end UniqueKeys

/-- **A projection keeps exactly the keys that it passes on entirely.** If it passes on some column and
the keys of its input are known, its keys are known. They are what those keys of the input that it
passes on entirely are carried to, the last places of their columns. Read backwards, each of them is a
key of the input again, of the same size, and each key of the input that is passed on entirely comes
from exactly one of them. -/
theorem Provider.builtin_project_keys {limit : Option Nat} {input : Plan} {columns : List Scalar}
    {ignoreNulls : Bool} {known : KeySet} (schema : Schema) (hcolumn : ∃ i, .column i ∈ columns)
    (hinput : ((builtin limit).uniqueKeys input ignoreNulls).result = .ok (some known)) :
    ∃ keys,
      ((builtin limit).uniqueKeys (.project input columns schema) ignoreNulls).result
        = .ok (some keys) ∧
      (∀ out, out ∈ keys ↔ ∃ key ∈ known, (∀ i ∈ key, .column i ∈ columns) ∧
        Scalar.Carries columns key out ∧ ∀ j ∈ out, Scalar.IsLastPlace columns j) ∧
      (∀ out ∈ keys, ∃ key ∈ known, Scalar.Carries columns key out ∧ key.size = out.size) ∧
      ∀ key ∈ known, (∀ i ∈ key, .column i ∈ columns) →
        ∃! out, out ∈ keys ∧ Scalar.Carries columns key out := by
  rw [result_uniqueKeys_builtin] at hinput
  have hkeys : (Plan.derived limit (.project input columns schema)).keys
      = some (known.filterMap (UniqueKeys.projectKey? columns)) := by
    show ((input.derived limit).project columns).keys = _
    rw [Derived.keys_project hcolumn, Except.ok.inj hinput, Option.map_some]
  have hmem : ∀ out, out ∈ known.filterMap (UniqueKeys.projectKey? columns) ↔
      ∃ key ∈ known, UniqueKeys.projectKey? columns key = some out :=
    fun out => KeySet.mem_filterMap
  refine ⟨_, by rw [result_uniqueKeys_builtin, hkeys], ?_, ?_, ?_⟩
  · intro out
    rw [hmem]
    refine exists_congr fun key => and_congr_right fun _ => ?_
    rw [UniqueKeys.projectKey?_eq_some_iff]
    exact ⟨fun h => ⟨h.1.passed_of_mem, h⟩, And.right⟩
  · intro out hout
    obtain ⟨key, hkey, hproject⟩ := (hmem out).mp hout
    exact ⟨key, hkey, UniqueKeys.carries_of_projectKey? hproject,
      (UniqueKeys.size_of_projectKey? hproject).symm⟩
  · intro key hkey hpassed
    obtain ⟨out, hproject⟩ := UniqueKeys.exists_projectKey?_of_passed hpassed
    refine ⟨out, ⟨(hmem out).mpr ⟨key, hkey, hproject⟩, UniqueKeys.carries_of_projectKey? hproject⟩, ?_⟩
    -- Another set of places that reads back as the key is what the key is carried to.
    intro out' ⟨hout', hcarries'⟩
    obtain ⟨key', -, hproject'⟩ := (hmem out').mp hout'
    obtain rfl := hcarries'.eq (UniqueKeys.carries_of_projectKey? hproject')
    exact Option.some.inj (hproject'.symm.trans hproject)

/-- The scan of the bookings of seats, each of which is known by its seat and day and by its number. -/
def bookings : Plan :=
  .scan "bookings" (.anonymous 3) [.ofList [0, 1], .singleton 2]

/-- With the seat passed on twice and without the number, seat and day are the only key, at the last
places at which they stand. -/
theorem builtin_project_keys_bookings :
    let columns : List Scalar := [.column 0, .column 1, .literal .null, .column 0]
    ((Provider.builtin (some 64)).uniqueKeys bookings true).result
        = .ok (some (.ofList [.ofList [0, 1], .singleton 2])) ∧
      ∃ keys,
        ((Provider.builtin (some 64)).uniqueKeys (.project bookings columns (.anonymous 4)) true).result
          = .ok (some keys) ∧
        .ofList [1, 3] ∈ keys ∧ ∀ out ∈ keys, Scalar.Carries columns (.ofList [0, 1]) out := by
  intro columns
  have hinput : ((Provider.builtin (some 64)).uniqueKeys bookings true).result
      = .ok (some (.ofList [.ofList [0, 1], .singleton 2])) := by
    rw [Provider.result_uniqueKeys_builtin]
    rfl
  have hcolumn : ∃ i, Scalar.column i ∈ columns := ⟨0, List.mem_cons_self⟩
  obtain ⟨keys, hkeys, hmem, -, -⟩ :=
    Provider.builtin_project_keys (.anonymous 4) hcolumn hinput
  refine ⟨hinput, keys, hkeys, ?_, fun out hout => ?_⟩
  · rw [Provider.result_uniqueKeys_builtin] at hkeys
    obtain rfl := Option.some.inj (Except.ok.inj hkeys)
    decide
  · obtain ⟨key, hkey, hpassed, hcarries, -⟩ := (hmem out).mp hout
    rcases List.mem_pair.mp (KeySet.mem_ofList.mp hkey) with rfl | rfl
    · exact hcarries
    · have hmissing : Scalar.column 2 ∈ columns := hpassed 2 (by decide)
      simp [columns] at hmissing

end QueryAnalysis
