import QueryAnalysis.Proofs.Rows.Keys

/-!
# Keys of joined rows

Every output row of a join starts with a left row, or with nulls if the join keeps unmatched right
rows. `isKey_joinRows` reduces a key of the output to three facts: output rows with the same left
row do not clash, output rows with different left rows do not, and neither do right rows in columns
that padded rows pass on. The three ways in which a join comes by a key are instances of it: a left
key with a right key (`isKey_joinRows_both`), a left key alone (`isKey_joinRows_left`) and a right
key alone (`isKey_joinRows_right`).

A full join keeps unmatched rows of both sides, and a padded left row can clash with a padded right
row. It does if the key finds nothing but nulls in the two rows, so that a left key with a right key
is a key of the output just if no unmatched pair is like that (`isKey_joinRows_full_iff`).
-/

namespace QueryAnalysis

namespace Database

variable {α : Type} {db : Database α} {ignoreNulls : Bool} {kind : JoinKind} {condition : Scalar}
  {leftWidth rightWidth : Nat} {left right : Bag α} {columns : ColumnSet}

/-! ### Output rows -/

theorem mem_matchesOf {l r : Row α} :
    r ∈ db.matchesOf condition right l ↔ r ∈ right ∧ db.isTrue condition (l ++ r) = true :=
  List.mem_filter

/-- What the output rows of a left row look like. -/
theorem mem_extend {l row : Row α} {matching : Bag α}
    (h : row ∈ db.extend kind rightWidth l matching) :
    (∃ r ∈ matching, row = l ++ r) ∨
      (kind.padsRight = true ∧ row = l ++ db.blank rightWidth ∧ matching = []) := by
  unfold extend at h
  split at h
  · next hpad =>
      simp only [Bool.and_eq_true, List.isEmpty_iff] at hpad
      exact .inr ⟨hpad.2, List.mem_singleton.mp h, hpad.1⟩
  · obtain ⟨r, hr, rfl⟩ := List.mem_map.mp h
    exact .inl ⟨r, hr, rfl⟩

/-- The output rows of one left row do not clash if those with a match do not. -/
theorem isKey_extend {l : Row α} {matching : Bag α}
    (h : matching.Pairwise fun r r' => ¬ Clash db.null ignoreNulls columns (l ++ r) (l ++ r')) :
    IsKey db.null ignoreNulls columns (db.extend kind rightWidth l matching) := by
  unfold extend
  split
  · exact IsKey.of_length_le_one (Nat.le_refl 1)
  · exact List.pairwise_map.mpr h

/-- A right row in the output that no left row meets. -/
theorem mem_unmatchedRight {row : Row α}
    (h : row ∈ db.unmatchedRight kind condition leftWidth left right) :
    kind.padsLeft = true ∧ ∃ r ∈ right, row = db.blank leftWidth ++ r ∧
      ∀ l ∈ left, db.isTrue condition (l ++ r) ≠ true := by
  unfold unmatchedRight at h
  split at h
  · next hpad =>
      obtain ⟨r, hr, rfl⟩ := List.mem_map.mp h
      obtain ⟨hright, hunmatched⟩ := List.mem_filter.mp hr
      refine ⟨hpad, r, hright, rfl, ?_⟩
      intro l hl
      simpa using List.all_eq_true.mp hunmatched l hl
  · exact absurd h List.not_mem_nil

/-! ### Keys of the output -/

section

variable (hleft : ∀ l ∈ left, l.length = leftWidth)

/-- Right rows that are padded do not clash where their own columns include a key. -/
theorem isKey_unmatchedRight {rk : ColumnSet} (hrk : IsKey db.null ignoreNulls rk right)
    (hsub : rk.shift leftWidth ⊆ columns) :
    IsKey db.null ignoreNulls columns (db.unmatchedRight kind condition leftWidth left right) := by
  unfold unmatchedRight
  split
  · refine List.pairwise_map.mpr ((hrk.filter _).imp fun {r r'} hfree hclash => hfree ?_)
    exact hclash.right (db.length_blank _) (db.length_blank _) hsub
  · exact .nil

include hleft

/-- A padded right row does not clash with a row that has a match: the right row would be the same,
once met by a left row and once by none. -/
theorem not_clash_unmatchedRight {rk : ColumnSet} (hrk : IsKey db.null ignoreNulls rk right)
    (hsub : rk.shift leftWidth ⊆ columns) {l r row : Row α} (hl : l ∈ left)
    (hr : r ∈ db.matchesOf condition right l)
    (hrow : row ∈ db.unmatchedRight kind condition leftWidth left right) :
    ¬ Clash db.null ignoreNulls columns (l ++ r) row := by
  intro hclash
  obtain ⟨-, r', hr', rfl, hunmatched⟩ := mem_unmatchedRight hrow
  obtain ⟨hr, hmeet⟩ := mem_matchesOf.mp hr
  have hsame : r = r' :=
    hrk.eq_of_clash hr hr' (hclash.right (hleft l hl) (db.length_blank _) hsub)
  exact hunmatched l hl (hsame ▸ hmeet)

/-- Where a right key survives, the padded right rows clash neither with each other nor with a row
that has a match. -/
theorem isKey_append_unmatchedRight {rk : ColumnSet} (hpadr : kind.padsRight = false)
    (hrk : IsKey db.null ignoreNulls rk right) (hsub : rk.shift leftWidth ⊆ columns)
    {matched : Bag α} (hkey : IsKey db.null ignoreNulls columns matched)
    (hmatched : ∀ row ∈ matched, ∃ l ∈ left,
      row ∈ db.extend kind rightWidth l (db.matchesOf condition right l)) :
    IsKey db.null ignoreNulls columns
      (matched ++ db.unmatchedRight kind condition leftWidth left right) := by
  refine List.pairwise_append.mpr ⟨hkey, isKey_unmatchedRight hrk hsub, ?_⟩
  intro row hrow row' hrow'
  obtain ⟨l, hl, hext⟩ := hmatched row hrow
  rcases mem_extend hext with ⟨r, hr, rfl⟩ | ⟨hpad, -⟩
  · exact not_clash_unmatchedRight hleft hrk hsub hl hr hrow'
  · exact absurd (hpadr.symm.trans hpad) Bool.false_ne_true

/-- Columns are a key of a join that is not full, if output rows of one left row do not clash on
them, nor output rows of two left rows, and if they hold a right key in case that right rows are
padded. -/
theorem isKey_joinRows (hkind : kind ≠ .full)
    (hsame : ∀ l ∈ left, (db.matchesOf condition right l).Pairwise fun r r' =>
      ¬ Clash db.null ignoreNulls columns (l ++ r) (l ++ r'))
    (hacross : left.Pairwise fun l l' =>
      ∀ row ∈ db.extend kind rightWidth l (db.matchesOf condition right l),
      ∀ row' ∈ db.extend kind rightWidth l' (db.matchesOf condition right l'),
        ¬ Clash db.null ignoreNulls columns row row')
    (hright : kind.padsLeft = true →
      ∃ rk, IsKey db.null ignoreNulls rk right ∧ rk.shift leftWidth ⊆ columns) :
    IsKey db.null ignoreNulls columns
      (db.joinRows kind condition leftWidth rightWidth left right) := by
  have hmatched : IsKey db.null ignoreNulls columns
      (left.flatMap fun l => db.extend kind rightWidth l (db.matchesOf condition right l)) :=
    List.pairwise_flatMap.mpr ⟨fun l hl => isKey_extend (hsame l hl), hacross⟩
  cases hpad : kind.padsLeft with
  | false =>
      rw [joinRows, unmatchedRight, hpad]
      simpa using hmatched
  | true =>
      obtain ⟨rk, hrk, hsub⟩ := hright hpad
      -- Of the kinds that pad on the left only the full join pads on the right too.
      have hpadr : kind.padsRight = false := by
        cases kind with
        | right => rfl
        | full => exact absurd rfl hkind
        | inner | left => exact absurd hpad Bool.false_ne_true
      exact isKey_append_unmatchedRight hleft hpadr hrk hsub hmatched
        fun row hrow => List.mem_flatMap.mp hrow

/-- Output rows of left rows that do not clash on some columns do not clash on more columns. -/
theorem not_clash_extend {lk : ColumnSet} (hsub : lk ⊆ columns) {l l' : Row α} (hl : l ∈ left)
    (hl' : l' ∈ left) (hfree : ¬ Clash db.null ignoreNulls lk l l') {matching matching' : Bag α}
    {row row' : Row α} (hrow : row ∈ db.extend kind rightWidth l matching)
    (hrow' : row' ∈ db.extend kind rightWidth l' matching') :
    ¬ Clash db.null ignoreNulls columns row row' := by
  have hlength : l.length = l'.length := (hleft l hl).trans (hleft l' hl').symm
  have hshape : ∀ {l row : Row α} {matching : Bag α},
      row ∈ db.extend kind rightWidth l matching → ∃ r, row = l ++ r := by
    intro l row matching h
    rcases mem_extend h with ⟨r, -, rfl⟩ | ⟨-, rfl, -⟩
    · exact ⟨r, rfl⟩
    · exact ⟨_, rfl⟩
  obtain ⟨r, rfl⟩ := hshape hrow
  obtain ⟨r', rfl⟩ := hshape hrow'
  exact fun hclash => hfree (hclash.left hlength hsub)

/-- Output rows of different left rows do not clash on columns that include a left key. -/
theorem pairwise_not_clash_extend {lk : ColumnSet} (hlk : IsKey db.null ignoreNulls lk left)
    (hsub : lk ⊆ columns) :
    left.Pairwise fun l l' =>
      ∀ row ∈ db.extend kind rightWidth l (db.matchesOf condition right l),
      ∀ row' ∈ db.extend kind rightWidth l' (db.matchesOf condition right l'),
        ¬ Clash db.null ignoreNulls columns row row' :=
  List.Pairwise.imp_of_mem (fun hl hl' hfree _ hrow _ hrow' =>
    not_clash_extend hleft hsub hl hl' hfree hrow hrow') hlk

/-- Output rows of one left row do not clash on columns that include a right key. -/
theorem pairwise_not_clash_matchesOf {rk : ColumnSet} (hrk : IsKey db.null ignoreNulls rk right)
    (hsub : rk.shift leftWidth ⊆ columns) :
    ∀ l ∈ left, (db.matchesOf condition right l).Pairwise fun r r' =>
      ¬ Clash db.null ignoreNulls columns (l ++ r) (l ++ r') := by
  intro l hl
  refine (hrk.filter _).imp fun {r r'} hfree hclash => hfree ?_
  exact hclash.right (hleft l hl) (hleft l hl) hsub

omit hleft in
theorem subset_union_shift (lk rk : ColumnSet) (leftWidth : Nat) :
    lk ⊆ lk.union (rk.shift leftWidth) ∧ rk.shift leftWidth ⊆ lk.union (rk.shift leftWidth) := by
  constructor
  · intro i hi
    simp [ColumnSet.mem_iff_contains.mp hi, ColumnSet.mem_iff_contains]
  · intro i hi
    rw [ColumnSet.mem_iff_contains] at hi ⊢
    rw [ColumnSet.contains_union, hi, Bool.or_true]

/-- A left key with a right key is a key of a join that is not full. -/
theorem isKey_joinRows_both {lk rk : ColumnSet} (hkind : kind ≠ .full)
    (hlk : IsKey db.null ignoreNulls lk left) (hrk : IsKey db.null ignoreNulls rk right) :
    IsKey db.null ignoreNulls (lk.union (rk.shift leftWidth))
      (db.joinRows kind condition leftWidth rightWidth left right) := by
  obtain ⟨hlsub, hrsub⟩ := subset_union_shift lk rk leftWidth
  exact isKey_joinRows hleft hkind (pairwise_not_clash_matchesOf hleft hrk hrsub)
    (pairwise_not_clash_extend hleft hlk hlsub) fun _ => ⟨rk, hrk, hrsub⟩

/-- A left key alone is a key of a join that pads no right row, if every left row meets at most one
right row. -/
theorem isKey_joinRows_left {lk : ColumnSet} (hpad : kind.padsLeft = false)
    (hlk : IsKey db.null ignoreNulls lk left)
    (hunique : IsKey db.null ignoreNulls (equiJoinColumns leftWidth condition).2 right) :
    IsKey db.null ignoreNulls lk
      (db.joinRows kind condition leftWidth rightWidth left right) := by
  have hkind : kind ≠ .full := by
    rintro rfl
    exact Bool.false_ne_true hpad.symm
  refine isKey_joinRows hleft hkind (fun l hl => ?_)
    (pairwise_not_clash_extend hleft hlk fun _ hi => hi)
    fun h => absurd (hpad.symm.trans h) Bool.false_ne_true
  -- Two right rows that meet `l` would clash on the equated columns.
  refine List.Pairwise.imp_of_mem (fun {r r'} hr hr' hfree _ => hfree ?_) (hunique.filter _)
  exact clash_rightColumns (hleft l hl) (mem_matchesOf.mp hr).2 (mem_matchesOf.mp hr').2

/-- A right key alone is a key of a join that pads no left row, if every right row meets at most one
left row. -/
theorem isKey_joinRows_right {rk : ColumnSet} (hpad : kind.padsRight = false)
    (hrk : IsKey db.null ignoreNulls rk right)
    (hunique : IsKey db.null ignoreNulls (equiJoinColumns leftWidth condition).1 left) :
    IsKey db.null ignoreNulls (rk.shift leftWidth)
      (db.joinRows kind condition leftWidth rightWidth left right) := by
  have hkind : kind ≠ .full := by
    rintro rfl
    exact Bool.false_ne_true hpad.symm
  have hmet : ∀ {l row : Row α}, row ∈ db.extend kind rightWidth l (db.matchesOf condition right l) →
      ∃ r ∈ right, db.isTrue condition (l ++ r) = true ∧ row = l ++ r := by
    intro l row h
    rcases mem_extend h with ⟨r, hr, rfl⟩ | ⟨h, -⟩
    · exact ⟨r, (mem_matchesOf.mp hr).1, (mem_matchesOf.mp hr).2, rfl⟩
    · exact absurd (hpad.symm.trans h) Bool.false_ne_true
  refine isKey_joinRows hleft hkind (pairwise_not_clash_matchesOf hleft hrk fun _ hi => hi) ?_
    fun _ => ⟨rk, hrk, fun _ hi => hi⟩
  -- The right row is the same in both output rows, so the left rows clash on the equated columns.
  refine List.Pairwise.imp_of_mem ?_ hunique
  intro l l' hl hl' hfree row hrow row' hrow' hclash
  obtain ⟨r, hr, hmeet, rfl⟩ := hmet hrow
  obtain ⟨r', hr', hmeet', rfl⟩ := hmet hrow'
  have hsame : r = r' :=
    hrk.eq_of_clash hr hr' (hclash.right (hleft l hl) (hleft l' hl') fun _ hi => hi)
  exact hfree (clash_leftColumns (hleft l hl) (hleft l' hl') hmeet (hsame ▸ hmeet'))

/-! ### Full joins -/

omit hleft in
/-- In each column one of two padded rows holds what the joined row holds, and the other null. -/
theorem getElem?_padded {l r : Row α} (hl : l.length = leftWidth) (hr : r.length = rightWidth)
    {i : Nat} {v : α} (h : (l ++ r)[i]? = some v) :
    ((l ++ db.blank rightWidth)[i]? = some v ∧ (db.blank leftWidth ++ r)[i]? = some db.null) ∨
      ((l ++ db.blank rightWidth)[i]? = some db.null ∧ (db.blank leftWidth ++ r)[i]? = some v) := by
  by_cases hi : i < leftWidth
  · left
    rw [List.getElem?_append_left (hl ▸ hi)] at h
    rw [List.getElem?_append_left (hl ▸ hi), List.getElem?_append_left (by simpa using hi)]
    exact ⟨h, by simp [blank, hi]⟩
  · right
    have hi := Nat.le_of_not_lt hi
    rw [List.getElem?_append_right (hl ▸ hi), hl] at h
    rw [List.getElem?_append_right (hl ▸ hi), List.getElem?_append_right (by simpa using hi), hl,
      length_blank]
    have hlt : i - leftWidth < rightWidth := hr ▸ (List.getElem?_eq_some_iff.mp h).1
    exact ⟨by simp [blank, hlt], h⟩

omit hleft in
/-- A padded left row and a padded right row clash just if the columns find nothing but nulls in the
two rows, or nothing at all if nulls are ignored. -/
theorem clash_padded_iff {l r : Row α} (hl : l.length = leftWidth) (hr : r.length = rightWidth) :
    Clash db.null ignoreNulls columns (l ++ db.blank rightWidth) (db.blank leftWidth ++ r) ↔
      ∀ i ∈ columns, ∀ v, (l ++ r)[i]? = some v → v = db.null ∧ ignoreNulls = false := by
  constructor
  · intro hclash i hi v hv
    have hagree := hclash.agree i hi
    have hnull : v = db.null := by
      rcases getElem?_padded hl hr hv with ⟨hleft, hright⟩ | ⟨hleft, hright⟩
      · exact Option.some.inj (hleft.symm.trans (hagree.trans hright))
      · exact Option.some.inj (hright.symm.trans (hagree.symm.trans hleft))
    refine ⟨hnull, Bool.eq_false_iff.mpr fun hignore => hclash.notNull hignore ⟨i, hi, ?_⟩⟩
    rcases getElem?_padded hl hr hv with ⟨hleft, -⟩ | ⟨hleft, -⟩
    · rw [hleft, hnull]
    · exact hleft
  · intro hnulls
    constructor
    · intro i hi
      cases hv : (l ++ r)[i]? with
      | none =>
          have hbeyond : leftWidth + rightWidth ≤ i := by simpa [hl, hr] using hv
          rw [List.getElem?_eq_none (by simpa [hl] using hbeyond),
            List.getElem?_eq_none (by simpa [hr] using hbeyond)]
      | some v =>
          obtain ⟨rfl, -⟩ := hnulls i hi v hv
          rcases getElem?_padded hl hr hv with ⟨hleft, hright⟩ | ⟨hleft, hright⟩ <;>
            rw [hleft, hright]
    · rintro hignore ⟨i, hi, hnull⟩
      have hlt : i < (l ++ r).length := by
        simpa [hl, hr] using (List.getElem?_eq_some_iff.mp hnull).1
      obtain ⟨-, hkept⟩ := hnulls i hi _ (List.getElem?_eq_getElem hlt)
      exact Bool.false_ne_true (hkept.symm.trans hignore)

/-- **A left key with a right key is a key of a full join** just if, in every unmatched left row with
every unmatched right row, the key finds something: a value other than null, or any value if nulls
are ignored. -/
theorem isKey_joinRows_full_iff (hright : ∀ r ∈ right, r.length = rightWidth) {lk rk : ColumnSet}
    (hlk : IsKey db.null ignoreNulls lk left) (hrk : IsKey db.null ignoreNulls rk right) :
    IsKey db.null ignoreNulls (lk.union (rk.shift leftWidth))
        (db.joinRows .full condition leftWidth rightWidth left right) ↔
      ∀ l ∈ left, ∀ r ∈ right, (∀ r' ∈ right, db.isTrue condition (l ++ r') = false) →
        (∀ l' ∈ left, db.isTrue condition (l' ++ r) = false) →
          ∃ i ∈ lk.union (rk.shift leftWidth), ∃ v, (l ++ r)[i]? = some v ∧
            (v ≠ db.null ∨ ignoreNulls = true) := by
  obtain ⟨hlsub, hrsub⟩ := subset_union_shift lk rk leftWidth
  have hmatched : IsKey db.null ignoreNulls (lk.union (rk.shift leftWidth))
      (left.flatMap fun l => db.extend .full rightWidth l (db.matchesOf condition right l)) :=
    List.pairwise_flatMap.mpr
      ⟨fun l hl => isKey_extend (pairwise_not_clash_matchesOf hleft hrk hrsub l hl),
        pairwise_not_clash_extend hleft hlk hlsub⟩
  have hunmatched : ∀ {l : Row α},
      (∀ r ∈ right, db.isTrue condition (l ++ r) = false) → db.matchesOf condition right l = [] := by
    intro l hl
    exact List.filter_eq_nil_iff.mpr fun r hr => by simp [hl r hr]
  have hclash : ∀ {l r : Row α}, l ∈ left → r ∈ right →
      (¬ Clash db.null ignoreNulls (lk.union (rk.shift leftWidth)) (l ++ db.blank rightWidth)
        (db.blank leftWidth ++ r) ↔ ∃ i ∈ lk.union (rk.shift leftWidth), ∃ v,
          (l ++ r)[i]? = some v ∧ (v ≠ db.null ∨ ignoreNulls = true)) := by
    intro l r hl hr
    rw [clash_padded_iff (hleft l hl) (hright r hr)]
    simp only [not_forall, not_and_or, Bool.not_eq_false, exists_prop]
  constructor
  · -- Both padded rows are in the output, and so they do not clash.
    intro hkey l hl r hr hlfree hrfree
    have hacross := (List.pairwise_append.mp hkey).2.2
    refine (hclash hl hr).mp (hacross _ ?_ _ ?_)
    · refine List.mem_flatMap.mpr ⟨l, hl, ?_⟩
      rw [hunmatched hlfree]
      exact List.mem_singleton_self _
    · refine List.mem_map.mpr ⟨r, List.mem_filter.mpr ⟨hr, ?_⟩, rfl⟩
      simpa using hrfree
  · intro hfinds
    refine List.pairwise_append.mpr ⟨hmatched, isKey_unmatchedRight hrk hrsub, ?_⟩
    intro row hrow row' hrow'
    obtain ⟨l, hl, hext⟩ := List.mem_flatMap.mp hrow
    rcases mem_extend hext with ⟨r, hr, rfl⟩ | ⟨-, rfl, hnone⟩
    · exact not_clash_unmatchedRight hleft hrk hrsub hl hr hrow'
    · obtain ⟨-, r, hr, rfl, hrfree⟩ := mem_unmatchedRight hrow'
      refine (hclash hl hr).mpr (hfinds l hl r hr ?_ fun l' hl' => by simpa using hrfree l' hl')
      intro r' hr'
      simpa using List.filter_eq_nil_iff.mp hnone r' hr'

end

end Database

end QueryAnalysis
