import QueryAnalysis.Proofs.Rows.Joins

/-!
# Keys of correlated rows

A correlation evaluates its right input once for each left row, and nothing says how many rows come
of it. Output rows of different left rows do not clash on a left key, but output rows of one left row
may: a left key stays a key just if it is one of each left row's own output
(`isKey_correlateRows_iff`). On columns of the left row alone that means one output row for each left
row, or that the row holds a null there and nulls are ignored (`isKey_extend_iff`).
-/

namespace QueryAnalysis

variable {α : Type}

/-- The rows of a correlation, given each left row with the rows that the right input yields for
it. -/
def Database.correlateRows (db : Database α) (kind : JoinKind) (rightWidth : Nat)
    (answered : List (Row α × Bag α)) : Bag α :=
  answered.flatMap fun pair => db.extend kind rightWidth pair.1 pair.2

/-- Rows with one left part clash on its columns, unless it holds a null there and nulls are
ignored. -/
theorem clash_append_iff {null : α} {ignoreNulls : Bool} {columns : ColumnSet} {l r r' : Row α}
    (hcolumns : ∀ i ∈ columns, i < l.length) :
    Clash null ignoreNulls columns (l ++ r) (l ++ r') ↔
      ¬ (ignoreNulls = true ∧ Row.NullIn null columns l) := by
  have hget : ∀ i ∈ columns, ∀ s : Row α, (l ++ s)[i]? = l[i]? :=
    fun i hi s => List.getElem?_append_left (hcolumns i hi)
  constructor
  · rintro hclash ⟨hignore, i, hi, hnull⟩
    exact hclash.notNull hignore ⟨i, hi, (hget i hi r).trans hnull⟩
  · intro hfree
    refine ⟨fun i hi => (hget i hi r).trans (hget i hi r').symm, ?_⟩
    rintro hignore ⟨i, hi, hnull⟩
    exact hfree ⟨hignore, i, hi, (hget i hi r).symm.trans hnull⟩

namespace Database

variable {db : Database α} {ignoreNulls : Bool} {kind : JoinKind} {rightWidth : Nat}
  {columns : ColumnSet}

/-- Columns of a left row are a key of its own output just if that is one row at most, or if the row
holds a null there and nulls are ignored. -/
theorem isKey_extend_iff {l : Row α} {matching : Bag α} (hcolumns : ∀ i ∈ columns, i < l.length) :
    IsKey db.null ignoreNulls columns (db.extend kind rightWidth l matching) ↔
      matching.length ≤ 1 ∨ (ignoreNulls = true ∧ Row.NullIn db.null columns l) := by
  constructor
  · intro hkey
    match matching with
    | [] | [_] => exact .inl (by simp)
    | r :: r' :: rest =>
        -- The first two rows of the output differ in their right parts only.
        right
        by_contra hfree
        exact (List.pairwise_cons.mp hkey).1 _ (List.mem_cons_self ..)
          ((clash_append_iff hcolumns).mpr hfree)
  · rintro (hfew | hnull)
    · refine IsKey.of_length_le_one ?_
      unfold extend
      split
      · exact Nat.le_refl 1
      · simpa using hfew
    · exact isKey_extend (List.pairwise_of_forall fun r r' hclash =>
        (clash_append_iff hcolumns).mp hclash hnull)

/-- **Columns that include a left key are a key of a correlation** just if they are one of each left
row's own output. -/
theorem isKey_correlateRows_iff {leftWidth : Nat} {answered : List (Row α × Bag α)} {lk : ColumnSet}
    (hleft : ∀ l ∈ answered.map Prod.fst, l.length = leftWidth)
    (hlk : IsKey db.null ignoreNulls lk (answered.map Prod.fst)) (hsub : lk ⊆ columns) :
    IsKey db.null ignoreNulls columns (db.correlateRows kind rightWidth answered) ↔
      ∀ pair ∈ answered,
        IsKey db.null ignoreNulls columns (db.extend kind rightWidth pair.1 pair.2) := by
  refine List.pairwise_flatMap.trans (and_iff_left_of_imp fun _ => ?_)
  refine List.Pairwise.imp_of_mem ?_ (List.pairwise_map.mp hlk)
  intro pair pair' hpair hpair' hfree row hrow row' hrow'
  exact not_clash_extend hleft hsub (List.mem_map_of_mem hpair) (List.mem_map_of_mem hpair') hfree
    hrow hrow'

end Database

end QueryAnalysis
