import QueryAnalysis.Proofs.Metadata.Soundness

/-!
# Which columns a join condition equates

The rules for joins ask whether the columns are unique that a condition equates across the two inputs,
and a column too many there makes false keys. This module says which columns are found: those of
conjuncts that equate a column of one side with one of the other, and no others. Restating a conjunct
does not change which columns it equates (`Scalar.Restates.equates_iff`), so it does not matter how the
condition is written (`Scalar.SameConjuncts.equiJoinColumns_eq`), and in rows that meet each column that
is found has a partner with the same value (`Database.meet_on_equality`).
-/

namespace QueryAnalysis

/-! ### Restated conjuncts -/

namespace Scalar

variable {i j : Nat}

theorem equates_binary_iff {left right : Scalar} {op : BinaryOperator} :
    (binary left op right).Equates i j ↔
      op = .eq ∧ (left.column? = some i ∧ right.column? = some j ∨
        left.column? = some j ∧ right.column? = some i) := by
  simp only [Equates, column?_eq_some_iff, binary.injEq]
  constructor
  · rintro (⟨hleft, hop, hright⟩ | ⟨hleft, hop, hright⟩)
    · exact ⟨hop, .inl ⟨hleft, hright⟩⟩
    · exact ⟨hop, .inr ⟨hleft, hright⟩⟩
  · rintro ⟨hop, ⟨hleft, hright⟩ | ⟨hleft, hright⟩⟩
    · exact .inl ⟨hleft, hop, hright⟩
    · exact .inr ⟨hleft, hop, hright⟩

/-- Restating an expression does not change which columns it equates. -/
theorem Restates.equates_iff {e e' : Scalar} (h : e.Restates e') :
    e.Equates i j ↔ e'.Equates i j := by
  induction h with
  | refl e => exact Iff.rfl
  | symm _ ih => exact ih.symm
  | trans _ _ ih ih' => exact ih.trans ih'
  | swap left op right =>
      have hop : op.reverse = .eq ↔ op = .eq := by cases op <;> decide
      rw [equates_binary_iff, equates_binary_iff, hop, or_comm, and_comm (a := left.column? = _),
        and_comm (a := left.column? = _)]
  | nest a b c => simp [equates_binary_iff]
  | nullTest operand => simp [Equates]
  | binary op hl hr _ _ =>
      rw [equates_binary_iff, equates_binary_iff, hl.column?_eq, hr.column?_eq]
  | isNull | aggregate | call => simp [Equates]

/-- Conditions with the same conjuncts equate the same columns across the sides. -/
theorem SameConjuncts.mem_crossEqualities_iff {p p' : Scalar} (h : p.SameConjuncts p')
    {leftWidth a b : Nat} :
    (a, b) ∈ p.crossEqualities leftWidth ↔ (a, b) ∈ p'.crossEqualities leftWidth := by
  rw [mem_crossEqualities, mem_crossEqualities]
  refine and_congr_right fun _ => ⟨?_, ?_⟩
  · rintro ⟨c, hc, hequates⟩
    obtain ⟨c', hc', hrestates⟩ := h.left c hc
    exact ⟨c', hc', hrestates.equates_iff.mp hequates⟩
  · rintro ⟨c', hc', hequates⟩
    obtain ⟨c, hc, hrestates⟩ := h.right c' hc'
    exact ⟨c, hc, hrestates.equates_iff.mp hequates⟩

theorem SameConjuncts.equiJoinColumns_eq {p p' : Scalar} (h : p.SameConjuncts p')
    (leftWidth : Nat) : equiJoinColumns leftWidth p' = equiJoinColumns leftWidth p := by
  refine Prod.ext (ColumnSet.ext_mem fun a => ?_) (ColumnSet.ext_mem fun b => ?_)
  · rw [mem_equiJoinColumns_fst, mem_equiJoinColumns_fst]
    exact exists_congr fun b => h.mem_crossEqualities_iff.symm
  · rw [mem_equiJoinColumns_snd, mem_equiJoinColumns_snd]
    exact exists_congr fun a => h.mem_crossEqualities_iff.symm

end Scalar

/-! ### The columns that are found -/

/-- **The columns found are those equated across the sides.** A left column is found just if a conjunct
equates it with a column beyond the left ones, and a right column just if a conjunct equates its place
in the joined row with a left column. Conditions with the same conjuncts give the same columns. In rows
on which the condition is true, every column that is found on either side holds a value other than
null which a column found on the other side holds too. -/
theorem equiJoinColumns_exact (leftWidth : Nat) (condition : Scalar) :
    (∀ a, a ∈ (equiJoinColumns leftWidth condition).1 ↔
      a < leftWidth ∧ ∃ h, leftWidth ≤ h ∧ ∃ conjunct ∈ condition.conjuncts, conjunct.Equates a h) ∧
    (∀ b, b ∈ (equiJoinColumns leftWidth condition).2 ↔
      ∃ a < leftWidth, ∃ conjunct ∈ condition.conjuncts, conjunct.Equates a (b + leftWidth)) ∧
    (∀ condition', condition.SameConjuncts condition' →
      equiJoinColumns leftWidth condition' = equiJoinColumns leftWidth condition) ∧
    ∀ {α : Type} (db : Database α) (l r : Row α), l.length = leftWidth →
      db.isTrue condition (l ++ r) = true →
      (∀ b ∈ (equiJoinColumns leftWidth condition).2, ∃ a ∈ (equiJoinColumns leftWidth condition).1,
        ∃ v, v ≠ db.null ∧ l[a]? = some v ∧ r[b]? = some v) ∧
      ∀ a ∈ (equiJoinColumns leftWidth condition).1, ∃ b ∈ (equiJoinColumns leftWidth condition).2,
        ∃ v, v ≠ db.null ∧ l[a]? = some v ∧ r[b]? = some v := by
  refine ⟨fun a => ?_, fun b => ?_, fun condition' hsame => hsame.equiJoinColumns_eq leftWidth,
    fun db l r hl htrue => ⟨fun b hb => ?_, fun a ha => ?_⟩⟩
  · simp only [mem_equiJoinColumns_fst, Scalar.mem_crossEqualities]
    constructor
    · rintro ⟨b, ha, hequates⟩
      exact ⟨ha, leftWidth + b, Nat.le_add_right _ _, hequates⟩
    · rintro ⟨ha, h, hle, hequates⟩
      exact ⟨h - leftWidth, ha, by rwa [Nat.add_sub_cancel' hle]⟩
  · simp only [mem_equiJoinColumns_snd, Scalar.mem_crossEqualities, Nat.add_comm b]
  · obtain ⟨a, hpair⟩ := mem_equiJoinColumns_snd.mp hb
    exact ⟨a, mem_equiJoinColumns_fst.mpr ⟨b, hpair⟩, Database.meet_on_equality hl htrue hpair⟩
  · obtain ⟨b, hpair⟩ := mem_equiJoinColumns_fst.mp ha
    exact ⟨b, mem_equiJoinColumns_snd.mpr ⟨a, hpair⟩, Database.meet_on_equality hl htrue hpair⟩

/-- `#0 = #3 AND #4 = #1`. -/
def crossed : Scalar :=
  .binary (.binary (.column 0) .eq (.column 3)) .and (.binary (.column 4) .eq (.column 1))

/-- `#1 = #4 AND (#4 = #1 AND #3 = #0)`. -/
def crossedAgain : Scalar :=
  .binary (.binary (.column 1) .eq (.column 4)) .and
    (.binary (.binary (.column 4) .eq (.column 1)) .and (.binary (.column 3) .eq (.column 0)))

/-- Behind three left columns both conditions equate the first two of either side, and where the first
one is true the columns agree. -/
theorem equiJoinColumns_exact_crossed :
    crossed.SameConjuncts crossedAgain ∧
      equiJoinColumns 3 crossedAgain = (.ofList [0, 1], .ofList [0, 1]) ∧
      shop.isTrue crossed ([.int 1, .int 7, .null] ++ [.int 1, .int 7]) = true ∧
      ∃ a ∈ (equiJoinColumns 3 crossed).1, ∃ v, v ≠ shop.null ∧
        [Literal.int 1, .int 7, .null][a]? = some v ∧ [Literal.int 1, .int 7][1]? = some v := by
  have hsame : crossed.SameConjuncts crossedAgain := by
    refine (Scalar.SameConjuncts.and_comm _ _).trans ?_
    refine ((Scalar.SameConjuncts.and_self _).symm.and (.refl _)).trans ?_
    refine (Scalar.SameConjuncts.and_assoc _ _ _).trans ?_
    exact .and (Scalar.Restates.swap _ _ _).sameConjuncts
      (.and (.refl _) (Scalar.Restates.swap _ _ _).sameConjuncts)
  have htrue : shop.isTrue crossed ([.int 1, .int 7, .null] ++ [.int 1, .int 7]) = true := by decide
  obtain ⟨-, -, hcolumns, hrows⟩ := equiJoinColumns_exact 3 crossed
  refine ⟨hsame, ?_, htrue, (hrows shop _ _ rfl htrue).1 1 (by decide)⟩
  rw [hcolumns crossedAgain hsame]
  decide

/-- A conjunct under an OR equates nothing, and neither does one within a side. -/
example :
    let within : Scalar := .binary (.column 0) .eq (.column 1)
    let either : Scalar := .binary (.binary (.column 0) .eq (.column 3)) .or crossed
    equiJoinColumns 3 (.binary within .and either) = (.empty, .empty) := by
  decide

end QueryAnalysis
