import QueryAnalysis.Plan

/-!
# Columns that a join condition equates

A join condition reads the concatenation of a left and a right row. `crossEqualities` finds the
conjuncts that equate a left column with a right one, in whichever order they are written, and
`equiJoinColumns` gathers the columns of each side. Right columns are counted from the start of the
right row. Every other conjunct is passed over.
-/

namespace QueryAnalysis

/-- The left and the right column that a conjunct equates, for a left row of the given width. -/
def Scalar.crossEquality? (leftWidth : Nat) : Scalar → Option (Nat × Nat)
  | binary (column a) .eq (column b) =>
    if min a b < leftWidth ∧ leftWidth ≤ max a b then some (min a b, max a b - leftWidth) else none
  | _ => none

/-- The pairs of columns that the conjuncts of a condition equate across the two sides. -/
def Scalar.crossEqualities (leftWidth : Nat) (condition : Scalar) : List (Nat × Nat) :=
  condition.conjuncts.filterMap (crossEquality? leftWidth)

/-- The left columns and the right columns that a condition equates across the two sides. -/
def equiJoinColumns (leftWidth : Nat) (condition : Scalar) : ColumnSet × ColumnSet :=
  let pairs := condition.crossEqualities leftWidth
  (.ofList (pairs.map Prod.fst), .ofList (pairs.map Prod.snd))

theorem mem_equiJoinColumns_fst {leftWidth : Nat} {condition : Scalar} {a : Nat} :
    a ∈ (equiJoinColumns leftWidth condition).1 ↔
      ∃ b, (a, b) ∈ condition.crossEqualities leftWidth := by
  simp [equiJoinColumns, ColumnSet.mem_iff_contains]

theorem mem_equiJoinColumns_snd {leftWidth : Nat} {condition : Scalar} {b : Nat} :
    b ∈ (equiJoinColumns leftWidth condition).2 ↔
      ∃ a, (a, b) ∈ condition.crossEqualities leftWidth := by
  simp [equiJoinColumns, ColumnSet.mem_iff_contains]

end QueryAnalysis
