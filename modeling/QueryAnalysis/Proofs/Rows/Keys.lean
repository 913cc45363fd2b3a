import Mathlib.Data.List.Pairwise
import QueryAnalysis.Metadata.EquiJoin
import QueryAnalysis.Proofs.Conjuncts
import QueryAnalysis.Proofs.Rows.Semantics

/-!
# Keys of bags of rows

Two rows clash on some columns if they agree there, null agreeing with null. When nulls are ignored
only rows without null in those columns clash. A set of columns is a key of a bag if no two of its
rows clash on it; rows are told apart by their place, so equal rows clash too.

The rest of the module says what becomes of keys under the operators. A clash of output rows leads
to a clash of the input rows that they come from, in the columns that are passed on
(`Clash.of_projects`, `Clash.left`, `Clash.right`). For joins the equated columns come in: two rows
of one side that meet the same row of the other side clash on them (`clash_rightColumns`,
`clash_leftColumns`).
-/

namespace QueryAnalysis

variable {α : Type} {null : α} {ignoreNulls : Bool} {columns : ColumnSet}

/-! ### Clashes -/

/-- Two rows hold the same in some columns; a column that neither row has does not tell them
apart. -/
def Row.AgreeOn (columns : ColumnSet) (r s : Row α) : Prop :=
  ∀ i ∈ columns, r[i]? = s[i]?

/-- A row holds null in one of the columns. -/
def Row.NullIn (null : α) (columns : ColumnSet) (r : Row α) : Prop :=
  ∃ i ∈ columns, r[i]? = some null

/-- Two rows that a key may not both allow. -/
structure Clash (null : α) (ignoreNulls : Bool) (columns : ColumnSet) (r s : Row α) : Prop where
  agree : Row.AgreeOn columns r s
  notNull : ignoreNulls = true → ¬ Row.NullIn null columns r

theorem Clash.symm {r s : Row α} (h : Clash null ignoreNulls columns r s) :
    Clash null ignoreNulls columns s r := by
  refine ⟨fun i hi => (h.agree i hi).symm, fun hignore hnull => h.notNull hignore ?_⟩
  obtain ⟨i, hi, hs⟩ := hnull
  exact ⟨i, hi, (h.agree i hi).trans hs⟩

/-- A clash carries over to rows that hold, in other columns, what the clashing rows hold. -/
theorem Clash.transfer {sources : ColumnSet} {r s r' s' : Row α}
    (h : Clash null ignoreNulls columns r' s')
    (hcolumn : ∀ i ∈ sources, ∃ j ∈ columns, r'[j]? = r[i]? ∧ s'[j]? = s[i]?) :
    Clash null ignoreNulls sources r s := by
  constructor
  · intro i hi
    obtain ⟨j, hj, hr, hs⟩ := hcolumn i hi
    rw [← hr, ← hs]
    exact h.agree j hj
  · rintro hignore ⟨i, hi, hnull⟩
    obtain ⟨j, hj, hr, -⟩ := hcolumn i hi
    exact h.notNull hignore ⟨j, hj, hr.trans hnull⟩

/-- A clash on more columns is a clash on fewer. -/
theorem Clash.mono {fewer : ColumnSet} {r s : Row α} (h : Clash null ignoreNulls columns r s)
    (hsub : fewer ⊆ columns) : Clash null ignoreNulls fewer r s :=
  h.transfer fun i hi => ⟨i, hsub i hi, rfl, rfl⟩

/-- A clash of joined rows is one of their left parts, on any left columns among the columns. -/
theorem Clash.left {lefts : ColumnSet} {l l' r r' : Row α}
    (h : Clash null ignoreNulls columns (l ++ r) (l' ++ r')) (hlength : l.length = l'.length)
    (hsub : lefts ⊆ columns) : Clash null ignoreNulls lefts l l' := by
  have h := h.mono hsub
  -- A column beyond the left rows holds nothing in either of them.
  constructor
  · intro i hi
    by_cases hlt : i < l.length
    · have hagree := h.agree i hi
      rwa [List.getElem?_append_left hlt, List.getElem?_append_left (hlength ▸ hlt)] at hagree
    · rw [List.getElem?_eq_none (Nat.le_of_not_lt hlt),
        List.getElem?_eq_none (hlength ▸ Nat.le_of_not_lt hlt)]
  · rintro hignore ⟨i, hi, hnull⟩
    refine h.notNull hignore ⟨i, hi, ?_⟩
    have hlt : i < l.length := (List.getElem?_eq_some_iff.mp hnull).1
    rwa [List.getElem?_append_left hlt]

/-- A clash of joined rows is one of their right parts, on any columns whose places in the joined
row are among the columns. -/
theorem Clash.right {rights : ColumnSet} {l l' r r' : Row α} {width : Nat}
    (h : Clash null ignoreNulls columns (l ++ r) (l' ++ r')) (hl : l.length = width)
    (hl' : l'.length = width) (hsub : rights.shift width ⊆ columns) :
    Clash null ignoreNulls rights r r' := by
  -- The right rows stand behind `width` columns of the left ones.
  refine h.transfer fun i hi => ⟨width + i, hsub _ ?_, ?_, ?_⟩
  · have hi : rights.contains i = true := hi
    simp [ColumnSet.mem_iff_contains, hi]
  · simp [List.getElem?_append_right, ← hl]
  · simp [List.getElem?_append_right, ← hl']

/-- A clash of projected rows is one of the input rows, on columns that are all passed on to the
output columns. -/
theorem Clash.of_projects {exprs : List Scalar} {sources : ColumnSet} {r s r' s' : Row α}
    (h : Clash null ignoreNulls columns r' s') (hr : Row.ProjectsTo exprs r r')
    (hs : Row.ProjectsTo exprs s s')
    (hpassed : ∀ i ∈ sources, ∃ j ∈ columns, exprs[j]? = some (.column i)) :
    Clash null ignoreNulls sources r s := by
  refine h.transfer ?_
  intro i hi
  obtain ⟨j, hj, hcolumn⟩ := hpassed i hi
  exact ⟨j, hj, hr.column hcolumn, hs.column hcolumn⟩

/-! ### Keys -/

instance : Std.Symm fun r s : Row α => ¬ Clash null ignoreNulls columns r s :=
  ⟨fun _ _ hfree hclash => hfree hclash.symm⟩

/-- No two rows clash on the columns. -/
def IsKey (null : α) (ignoreNulls : Bool) (columns : ColumnSet) (rows : Bag α) : Prop :=
  rows.Pairwise fun r s => ¬ Clash null ignoreNulls columns r s

namespace IsKey

theorem of_length_le_one {rows : Bag α} (h : rows.length ≤ 1) :
    IsKey null ignoreNulls columns rows := by
  match rows, h with
  | [], _ => exact .nil
  | [row], _ => exact List.pairwise_singleton _ row

/-- The key without columns allows one row. -/
theorem empty_iff {rows : Bag α} : IsKey null ignoreNulls .empty rows ↔ rows.length ≤ 1 := by
  refine ⟨fun h => ?_, of_length_le_one⟩
  have hnone : ∀ i, i ∉ ColumnSet.empty := fun i => by simp [ColumnSet.mem_iff_contains]
  match rows, h with
  | [], _ => exact Nat.zero_le 1
  | [_], _ => exact Nat.le_refl 1
  | r :: s :: _, h =>
      -- Without columns any two rows clash.
      have hclash : Clash null ignoreNulls .empty r s :=
        ⟨fun i hi => absurd hi (hnone i), fun _ ⟨i, hi, _⟩ => hnone i hi⟩
      exact absurd hclash ((List.pairwise_cons.mp h).1 s List.mem_cons_self)

/-- More columns than a key are a key. -/
theorem mono {key : ColumnSet} {rows : Bag α} (h : IsKey null ignoreNulls key rows)
    (hsub : key ⊆ columns) : IsKey null ignoreNulls columns rows :=
  h.imp fun hfree hclash => hfree (hclash.mono hsub)

theorem perm {rows out : Bag α} (h : IsKey null ignoreNulls columns rows) (hperm : out.Perm rows) :
    IsKey null ignoreNulls columns out :=
  hperm.symm.pairwise h fun hfree hclash => hfree hclash.symm

theorem perm_iff {rows out : Bag α} (hperm : out.Perm rows) :
    IsKey null ignoreNulls columns out ↔ IsKey null ignoreNulls columns rows :=
  ⟨fun h => h.perm hperm.symm, fun h => h.perm hperm⟩

theorem subperm {rows out : Bag α} (h : IsKey null ignoreNulls columns rows)
    (hsub : out.Subperm rows) : IsKey null ignoreNulls columns out := by
  obtain ⟨kept, hperm, hkept⟩ := hsub
  exact perm (h.sublist hkept) hperm.symm

/-- Rows that clash on a key are the same row. -/
theorem eq_of_clash {rows : Bag α} (h : IsKey null ignoreNulls columns rows) {r s : Row α}
    (hr : r ∈ rows) (hs : s ∈ rows) (hclash : Clash null ignoreNulls columns r s) : r = s := by
  by_contra hne
  exact h.forall hr hs hne hclash

/-- Columns that a projection passes on entirely stay a key. -/
theorem project {exprs : List Scalar} {sources : ColumnSet} {rows out : Bag α}
    (h : IsKey null ignoreNulls sources rows)
    (hpassed : ∀ i ∈ sources, ∃ j ∈ columns, exprs[j]? = some (.column i))
    (hout : List.Forall₂ (Row.ProjectsTo exprs) rows out) :
    IsKey null ignoreNulls columns out := by
  induction hout with
  | nil => exact .nil
  | @cons r r' rows out hr hrest ih =>
      obtain ⟨hhead, htail⟩ := List.pairwise_cons.mp h
      refine List.pairwise_cons.mpr ⟨?_, ih htail⟩
      intro s' hs' hclash
      -- The later row comes from a row of the input, which does not clash with this one's.
      obtain ⟨k, hk, rfl⟩ := List.getElem_of_mem hs'
      have hk' : k < rows.length := hrest.length_eq ▸ hk
      exact hhead rows[k] (List.getElem_mem hk')
        (hclash.of_projects hr (hrest.get hk' hk) hpassed)

/-- The leading columns of grouped rows are a key. -/
theorem group {group : ColumnSet} {rows out : Bag α} (h : Bag.GroupsTo group rows out) :
    IsKey null ignoreNulls (.range 0 group.size) out := by
  refine (List.pairwise_map.mp h.nodup).imp ?_
  intro r s hne hclash
  refine hne ?_
  refine List.map_congr_left fun i hi => hclash.agree i ?_
  simpa [ColumnSet.mem_iff_contains] using hi

end IsKey

/-! ### Equated columns -/

namespace Database

variable {db : Database α} {condition : Scalar}

/-- A condition that is true has only true conjuncts. -/
theorem isTrue_of_mem_conjuncts {row : Row α} (h : db.isTrue condition row = true)
    {conjunct : Scalar} (hmem : conjunct ∈ condition.conjuncts) : db.isTrue conjunct row = true := by
  induction condition using Scalar.conjuncts_induction with
  | conjunction left right ihl ihr =>
      obtain ⟨hl, hr⟩ := db.isTrue_and h
      rcases List.mem_append.mp hmem with hmem | hmem
      · exact ihl hl hmem
      · exact ihr hr hmem
  | single condition hsingle =>
      rw [hsingle] at hmem
      rwa [List.mem_singleton.mp hmem]

end Database

namespace Scalar

/-- The expression equates two columns, whichever of them is written first. -/
def Equates (i j : Nat) (e : Scalar) : Prop :=
  e = .binary (.column i) .eq (.column j) ∨ e = .binary (.column j) .eq (.column i)

variable {leftWidth a b : Nat}

/-- The left and the right column of a conjunct are those that it equates. -/
theorem crossEquality?_eq_some_iff {e : Scalar} :
    e.crossEquality? leftWidth = some (a, b) ↔ a < leftWidth ∧ e.Equates a (leftWidth + b) := by
  constructor
  · intro h
    unfold crossEquality? at h
    split at h
    · next i j =>
        obtain ⟨hcross, hpair⟩ := Option.ite_none_right_eq_some.mp h
        obtain ⟨rfl, rfl⟩ := Prod.mk.inj (Option.some.inj hpair)
        refine ⟨hcross.1, ?_⟩
        -- Either side of the equality may be the left column.
        rcases Nat.le_total i j with hij | hij
        · left
          rw [Nat.min_eq_left hij, Nat.max_eq_right hij] at *
          rw [Nat.add_sub_cancel' hcross.2]
        · right
          rw [Nat.min_eq_right hij, Nat.max_eq_left hij] at *
          rw [Nat.add_sub_cancel' hcross.2]
    · exact absurd h (by simp)
  · rintro ⟨ha, hequates⟩
    have hle : a ≤ leftWidth + b := by omega
    rcases hequates with rfl | rfl
    · simp [crossEquality?, Nat.min_eq_left hle, Nat.max_eq_right hle, ha]
    · simp [crossEquality?, Nat.min_eq_right hle, Nat.max_eq_left hle, ha]

/-- The pairs of columns across the sides are those that conjuncts equate. -/
theorem mem_crossEqualities {condition : Scalar} :
    (a, b) ∈ condition.crossEqualities leftWidth ↔
      a < leftWidth ∧ ∃ conjunct ∈ condition.conjuncts, conjunct.Equates a (leftWidth + b) := by
  rw [crossEqualities, List.mem_filterMap]
  simp only [crossEquality?_eq_some_iff]
  constructor
  · rintro ⟨conjunct, hmem, ha, hequates⟩
    exact ⟨ha, conjunct, hmem, hequates⟩
  · rintro ⟨ha, conjunct, hmem, hequates⟩
    exact ⟨conjunct, hmem, ha, hequates⟩

end Scalar

namespace Database

variable {db : Database α} {condition : Scalar} {leftWidth : Nat} {l l' r r' : Row α}

/-- Rows that meet hold the same value in columns that the condition equates, and not null. -/
theorem meet_on_equality (hl : l.length = leftWidth) (h : db.isTrue condition (l ++ r) = true)
    {a b : Nat} (hpair : (a, b) ∈ condition.crossEqualities leftWidth) :
    ∃ v, v ≠ db.null ∧ l[a]? = some v ∧ r[b]? = some v := by
  obtain ⟨ha, conjunct, hmem, hequates⟩ := Scalar.mem_crossEqualities.mp hpair
  have htrue := isTrue_of_mem_conjuncts h hmem
  rcases hequates with rfl | rfl
  · obtain ⟨v, hv, hleft, hright⟩ := db.isTrue_eq htrue
    rw [List.getElem?_append_left (hl ▸ ha)] at hleft
    rw [← hl, List.getElem?_append_right (Nat.le_add_right _ _), Nat.add_sub_cancel_left] at hright
    exact ⟨v, hv, hleft, hright⟩
  · obtain ⟨v, hv, hright, hleft⟩ := db.isTrue_eq htrue
    rw [List.getElem?_append_left (hl ▸ ha)] at hleft
    rw [← hl, List.getElem?_append_right (Nat.le_add_right _ _), Nat.add_sub_cancel_left] at hright
    exact ⟨v, hv, hleft, hright⟩

/-- Right rows that meet the same left row clash on the equated right columns. -/
theorem clash_rightColumns (hl : l.length = leftWidth) (h : db.isTrue condition (l ++ r) = true)
    (h' : db.isTrue condition (l ++ r') = true) :
    Clash db.null ignoreNulls (equiJoinColumns leftWidth condition).2 r r' := by
  constructor
  · -- Both right rows hold what the left row holds in the column equated with theirs.
    intro i hi
    obtain ⟨a, ha⟩ := mem_equiJoinColumns_snd.mp hi
    obtain ⟨v, -, hla, hr⟩ := meet_on_equality hl h ha
    obtain ⟨v', -, hla', hr'⟩ := meet_on_equality hl h' ha
    rw [hr, hr', ← hla, hla']
  · rintro - ⟨i, hi, hnull⟩
    obtain ⟨a, ha⟩ := mem_equiJoinColumns_snd.mp hi
    obtain ⟨v, hv, -, hr⟩ := meet_on_equality hl h ha
    exact hv (Option.some.inj (hr.symm.trans hnull))

/-- Left rows that meet the same right row clash on the equated left columns. -/
theorem clash_leftColumns (hl : l.length = leftWidth) (hl' : l'.length = leftWidth)
    (h : db.isTrue condition (l ++ r) = true) (h' : db.isTrue condition (l' ++ r) = true) :
    Clash db.null ignoreNulls (equiJoinColumns leftWidth condition).1 l l' := by
  constructor
  · intro i hi
    obtain ⟨b, hb⟩ := mem_equiJoinColumns_fst.mp hi
    obtain ⟨v, -, hla, hr⟩ := meet_on_equality hl h hb
    obtain ⟨v', -, hla', hr'⟩ := meet_on_equality hl' h' hb
    rw [hla, hla', ← hr, hr']
  · rintro - ⟨i, hi, hnull⟩
    obtain ⟨b, hb⟩ := mem_equiJoinColumns_fst.mp hi
    obtain ⟨v, hv, hla, -⟩ := meet_on_equality hl h hb
    exact hv (Option.some.inj (hla.symm.trans hnull))

end Database

end QueryAnalysis
