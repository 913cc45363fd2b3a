import QueryAnalysis.Proofs.Metadata.Soundness

/-!
# The two questions about uniqueness agree

An operator is asked for its unique keys, or whether some columns are unique. A projection answers
the two in opposite directions: its keys are those of the input, carried to the places where their
columns are passed on, and columns of its output are unique if the input columns that stand there
are. `Derived.Coherent` is what the answers have in common all the same. Columns that hold a known
key are unique, uniqueness is unknown only where no key is known, and more columns are unique if
fewer are.

The converse fails where a column is passed on twice, as a key goes with the last of its places, and
where none is passed on, as then there is no key. Without such projections one answer determines the
other (`Derived.Exact`).
-/

namespace QueryAnalysis

/-- A key that lies within some columns lies within more columns. -/
theorem KeySet.covers_mono {keys : KeySet} {columns columns' : ColumnSet} (hsub : columns ⊆ columns')
    (h : keys.covers columns = true) : keys.covers columns' = true := by
  obtain ⟨key, hmem, hkey⟩ := covers_eq_true_iff.mp h
  rw [ColumnSet.isSubset_iff] at hkey
  exact covers_eq_true_iff.mpr
    ⟨key, hmem, ColumnSet.isSubset_iff.mpr fun i hi => hsub i (hkey i hi)⟩

/-! ### Projections -/

/-- A projection passes on some column, and no column twice. -/
structure Scalar.PassOnce (columns : List Scalar) : Prop where
  exists_column : ∃ i, .column i ∈ columns
  place_eq : ∀ {i j j' : Nat}, columns[j]? = some (.column i) → columns[j']? = some (.column i) → j = j'

namespace ColumnUniqueness

variable {exprs : List Scalar} {columns columns' : ColumnSet}

theorem mem_sourceColumns {i : Nat} :
    i ∈ sourceColumns exprs columns ↔ ∃ j ∈ columns, exprs[j]? = some (.column i) := by
  refine ⟨passed_of_sourceColumns i, ?_⟩
  rintro ⟨j, hj, hexpr⟩
  simp only [sourceColumns, ColumnSet.mem_iff_contains, ColumnSet.contains_ofList,
    decide_eq_true_eq, List.mem_filterMap]
  exact ⟨j, ColumnSet.mem_toList.mpr hj, by simp [hexpr]⟩

theorem sourceColumns_mono (hsub : columns ⊆ columns') :
    sourceColumns exprs columns ⊆ sourceColumns exprs columns' := by
  intro i hi
  obtain ⟨j, hj, hexpr⟩ := mem_sourceColumns.mp hi
  exact mem_sourceColumns.mpr ⟨j, hsub j hj, hexpr⟩

end ColumnUniqueness

namespace UniqueKeys

variable {exprs : List Scalar} {key out columns : ColumnSet}

/-- The columns of a key are the sources of the places that it is carried to. -/
theorem subset_sourceColumns (h : projectKey? exprs key = some out) (hsub : out ⊆ columns) :
    key ⊆ ColumnUniqueness.sourceColumns exprs columns := by
  intro i hi
  obtain ⟨j, hj, hexpr⟩ := passed_of_projectKey? h i hi
  exact ColumnUniqueness.mem_sourceColumns.mpr ⟨j, hsub j hj, hexpr⟩

/-- If no column is passed on twice, a key among the sources of some columns is carried to them. -/
theorem exists_projectKey? (hpass : Scalar.PassOnce exprs)
    (hsub : key ⊆ ColumnUniqueness.sourceColumns exprs columns) :
    ∃ out, projectKey? exprs key = some out ∧ out ⊆ columns := by
  have hplace : ∀ i ∈ key.toList, ∃ j, outputOf? exprs i = some j ∧ j ∈ columns := by
    intro i hi
    obtain ⟨j, hj, hexpr⟩ :=
      ColumnUniqueness.mem_sourceColumns.mp (hsub i (ColumnSet.mem_toList.mp hi))
    obtain ⟨last, hlast⟩ := exists_outputOf? hexpr
    obtain rfl := hpass.place_eq hexpr (getElem?_of_outputOf? hlast)
    exact ⟨j, hlast, hj⟩
  obtain ⟨places, hplaces⟩ := exists_mapM_eq_some fun i hi => (hplace i hi).imp fun _ h => h.1
  refine ⟨.ofList places, by rw [projectKey?, hplaces, Option.map_some], ?_⟩
  intro j hj
  obtain ⟨i, hi, hout⟩ := exists_of_forall₂ (forall₂_of_mapM_eq_some hplaces).flip j
    (by simpa [ColumnSet.mem_iff_contains] using hj)
  obtain ⟨j', hout', hj'⟩ := hplace i hi
  exact Option.some.inj (hout'.symm.trans hout) ▸ hj'

theorem covers_of_covers_filterMap {keys : KeySet}
    (h : (keys.filterMap (projectKey? exprs)).covers columns = true) :
    keys.covers (ColumnUniqueness.sourceColumns exprs columns) = true := by
  obtain ⟨out, hout, hsub⟩ := KeySet.covers_eq_true_iff.mp h
  obtain ⟨key, hkey, hproject⟩ := KeySet.mem_filterMap.mp hout
  exact KeySet.covers_eq_true_iff.mpr ⟨key, hkey, ColumnSet.isSubset_iff.mpr
    (subset_sourceColumns hproject (ColumnSet.isSubset_iff.mp hsub))⟩

theorem covers_filterMap_iff (hpass : Scalar.PassOnce exprs) {keys : KeySet} :
    (keys.filterMap (projectKey? exprs)).covers columns = true ↔
      keys.covers (ColumnUniqueness.sourceColumns exprs columns) = true := by
  refine ⟨covers_of_covers_filterMap, ?_⟩
  intro h
  obtain ⟨key, hkey, hsub⟩ := KeySet.covers_eq_true_iff.mp h
  obtain ⟨out, hproject, hout⟩ := exists_projectKey? hpass (ColumnSet.isSubset_iff.mp hsub)
  exact KeySet.covers_eq_true_iff.mpr
    ⟨out, KeySet.mem_filterMap.mpr ⟨key, hkey, hproject⟩, ColumnSet.isSubset_iff.mpr hout⟩

theorem passedColumns_isEmpty_eq_false (hcolumn : ∃ i, .column i ∈ exprs) :
    (passedColumns exprs).isEmpty = false := by
  obtain ⟨i, hi⟩ := hcolumn
  obtain ⟨j, hj⟩ := List.mem_iff_getElem?.mp hi
  simpa using List.ne_nil_of_mem (mem_passedColumns.mpr hj)

end UniqueKeys

/-! ### What is known of one operator -/

namespace Derived

/-- What the answers to the two questions have in common. -/
structure Coherent (d : Derived) : Prop where
  unique_of_covers : ∀ {known columns}, d.keys = some known → known.covers columns = true →
    d.unique columns = some true
  keys_of_unknown : ∀ {columns}, d.unique columns = none → d.keys = none ∨ d.keys = some .empty
  /-- Whether uniqueness is known does not depend on the columns. -/
  unknown_iff : ∀ columns columns', d.unique columns = none ↔ d.unique columns' = none
  mono : ∀ {columns columns'}, columns ⊆ columns' → d.unique columns = some true →
    d.unique columns' = some true

/-- Columns are unique exactly if a known key lies within them. -/
def Exact (d : Derived) : Prop :=
  ∀ columns, d.unique columns = d.keys.map fun known => known.covers columns

theorem exact_ofKeys (keys : Option KeySet) : (ofKeys keys).Exact :=
  fun _ => rfl

theorem coherent_ofKeys (keys : Option KeySet) : (ofKeys keys).Coherent where
  unique_of_covers hknown hcovers := by
    obtain rfl : keys = _ := hknown
    exact congrArg some hcovers
  keys_of_unknown hunknown := .inl (Option.map_eq_none_iff.mp hunknown)
  unknown_iff _ _ := by rw [ofKeys, Option.map_eq_none_iff, Option.map_eq_none_iff]
  mono hsub hunique := by
    obtain ⟨known, hknown, hcovers⟩ := Option.map_eq_some_iff.mp hunique
    obtain rfl : keys = _ := hknown
    exact congrArg some (KeySet.covers_mono hsub hcovers)

variable {d : Derived} {exprs : List Scalar}

theorem Coherent.project (h : d.Coherent) : (d.project exprs).Coherent where
  unique_of_covers {known columns} hknown hcovers := by
    simp only [Derived.project] at hknown
    split at hknown
    · -- Without a column that is passed on there is no key.
      obtain rfl := Option.some.inj hknown
      exact absurd hcovers Bool.false_ne_true
    · obtain ⟨keys, hkeys, rfl⟩ := Option.map_eq_some_iff.mp hknown
      exact h.unique_of_covers hkeys (UniqueKeys.covers_of_covers_filterMap hcovers)
  keys_of_unknown hunknown := by
    simp only [Derived.project]
    split
    · exact .inr rfl
    · rcases h.keys_of_unknown hunknown with hkeys | hkeys
      · exact .inl (by rw [hkeys, Option.map_none])
      · exact .inr (by rw [hkeys]; rfl)
  unknown_iff columns columns' := h.unknown_iff _ _
  mono hsub hunique := h.mono (ColumnUniqueness.sourceColumns_mono hsub) hunique

/-- A projection that passes on some column carries the keys of its input on. -/
theorem keys_project (hcolumn : ∃ i, .column i ∈ exprs) :
    (d.project exprs).keys
      = d.keys.map fun known => known.filterMap (UniqueKeys.projectKey? exprs) := by
  simp [Derived.project, UniqueKeys.passedColumns_isEmpty_eq_false hcolumn]

theorem Exact.project (h : d.Exact) (hpass : Scalar.PassOnce exprs) : (d.project exprs).Exact := by
  intro columns
  have hkeys := d.keys_project hpass.exists_column
  calc (d.project exprs).unique columns
      = d.unique (ColumnUniqueness.sourceColumns exprs columns) := rfl
    _ = d.keys.map fun known => known.covers (ColumnUniqueness.sourceColumns exprs columns) := h _
    _ = d.keys.map fun known => (known.filterMap (UniqueKeys.projectKey? exprs)).covers columns := by
      congr 1
      funext known
      exact (Bool.eq_iff_iff.mpr (UniqueKeys.covers_filterMap_iff hpass)).symm
    _ = (d.project exprs).keys.map fun known => known.covers columns := by
      rw [hkeys, Option.map_map]
      rfl

end Derived

/-! ### Whole plans -/

namespace Plan

/-- Every projection in the plan passes on some column, and no column twice. -/
def PassesOnce (plan : Plan) : Prop :=
  ∀ input columns schema, .project input columns schema ∈ plan.operators → Scalar.PassOnce columns

theorem PassesOnce.input {plan input : Plan} (h : plan.PassesOnce) (hinput : input ∈ plan.inputs) :
    input.PassesOnce :=
  fun _ columns schema hmem => h _ columns schema (mem_operators_of_input hinput hmem)

theorem coherent_derived (limit : Option Nat) (plan : Plan) : (plan.derived limit).Coherent := by
  induction plan using Plan.induction_on_inputs with
  | step plan ih =>
      cases plan with
      | filter input | sort input => exact ih input (by simp [inputs])
      | project input => exact (ih input (by simp [inputs])).project
      | _ => exact Derived.coherent_ofKeys _

theorem exact_derived (limit : Option Nat) {plan : Plan} (hplan : plan.PassesOnce) :
    (plan.derived limit).Exact := by
  induction plan using Plan.induction_on_inputs with
  | step plan ih =>
      cases plan with
      | filter input | sort input =>
          have hinput := List.mem_singleton_self input
          exact ih input hinput (hplan.input hinput)
      | project input columns schema =>
          have hinput := List.mem_singleton_self input
          exact (ih input hinput (hplan.input hinput)).project
            (hplan input columns schema (mem_operators_self _))
      | _ => exact Derived.exact_ofKeys _

end Plan

/-- **The two questions agree.** On every plan both succeed. Columns that hold a known key are
unique; where uniqueness is unknown there is no known key; and the answer is monotone in the columns.
If every projection passes on some column and none twice, columns are unique exactly if a known key
lies within them. -/
theorem Provider.builtin_questions_agree (limit : Option Nat) (plan : Plan) (ignoreNulls : Bool) :
    ∃ (keys : Option KeySet) (unique : ColumnSet → Option Bool),
      ((builtin limit).uniqueKeys plan ignoreNulls).result = .ok keys ∧
      (∀ columns,
        ((builtin limit).columnsUnique plan columns ignoreNulls).result = .ok (unique columns)) ∧
      (∀ known, keys = some known → ∀ key ∈ known, ∀ columns, key ⊆ columns →
        unique columns = some true) ∧
      (∀ columns, unique columns = none → keys = none ∨ keys = some .empty) ∧
      (∀ columns columns', columns ⊆ columns' →
        (unique columns = none ↔ unique columns' = none) ∧
          (unique columns = some true → unique columns' = some true)) ∧
      (plan.PassesOnce → ∀ columns, unique columns = keys.map fun known => known.covers columns) := by
  have hcoherent := plan.coherent_derived limit
  refine ⟨(plan.derived limit).keys, (plan.derived limit).unique,
    result_uniqueKeys_builtin limit plan ignoreNulls,
    fun columns => result_columnsUnique_builtin limit plan columns ignoreNulls, ?_, ?_, ?_, ?_⟩
  · intro known hknown key hkey columns hsub
    exact hcoherent.unique_of_covers hknown
      (KeySet.covers_eq_true_iff.mpr ⟨key, hkey, ColumnSet.isSubset_iff.mpr hsub⟩)
  · exact fun columns => hcoherent.keys_of_unknown
  · exact fun columns columns' hsub => ⟨hcoherent.unknown_iff columns columns', hcoherent.mono hsub⟩
  · exact fun hplan => Plan.exact_derived limit hplan

/-- The orders with their columns exchanged. -/
def customersOfOrders : Plan :=
  .project orders [.column 1, .column 0] (.anonymous 2)

/-- The exchanged columns pass the key of the orders on to the second place, and to no other. -/
theorem builtin_questions_agree_customersOfOrders :
    customersOfOrders.PassesOnce ∧
      ((Provider.builtin (some 64)).uniqueKeys customersOfOrders true).result
        = .ok (some (.singleton (.singleton 1))) ∧
      ((Provider.builtin (some 64)).columnsUnique customersOfOrders (.singleton 1) true).result
        = .ok (some true) ∧
      ((Provider.builtin (some 64)).columnsUnique customersOfOrders (.singleton 0) true).result
        = .ok (some false) := by
  have hpass : customersOfOrders.PassesOnce := by
    intro input columns schema hmem
    have hops : customersOfOrders.operators = [customersOfOrders, orders] := rfl
    rw [hops] at hmem
    simp only [List.mem_cons, List.not_mem_nil, or_false, customersOfOrders, orders,
      Plan.project.injEq, reduceCtorEq] at hmem
    obtain ⟨-, rfl, -⟩ := hmem
    refine ⟨⟨0, by simp⟩, ?_⟩
    intro i j j' hj hj'
    have hplace : ∀ {j : Nat}, [Scalar.column 1, .column 0][j]? = some (.column i) →
        j + i = 1 := by
      intro j hj
      rcases j with _ | _ | j
      · obtain rfl := Scalar.column.inj (Option.some.inj hj)
        rfl
      · obtain rfl := Scalar.column.inj (Option.some.inj hj)
        rfl
      · exact absurd hj (by simp)
    have hfirst := hplace hj
    have hsecond := hplace hj'
    omega
  obtain ⟨keys, unique, hkeys, hunique, -, -, -, hexact⟩ :=
    Provider.builtin_questions_agree (some 64) customersOfOrders true
  have hknown : ((Provider.builtin (some 64)).uniqueKeys customersOfOrders true).result
      = .ok (some (.singleton (.singleton 1))) := by
    rw [Provider.result_uniqueKeys_builtin]
    decide
  obtain rfl := Except.ok.inj (hknown.symm.trans hkeys)
  refine ⟨hpass, hknown, ?_, ?_⟩
  · rw [hunique, hexact hpass]
    decide
  · rw [hunique, hexact hpass]
    decide

/-- A column that is passed on twice is unique in either place, but the key goes with the last. -/
example :
    let twice := (Plan.project orders [.column 0, .column 0] (.anonymous 2)).derived none
    twice.unique (.singleton 0) = some true ∧ twice.keys = some (.singleton (.singleton 1)) := by
  decide

end QueryAnalysis
