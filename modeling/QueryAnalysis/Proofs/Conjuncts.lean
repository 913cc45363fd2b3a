import QueryAnalysis.Scalar

/-!
# Conjuncts of a condition

What is said of a condition by way of its conjuncts is proved by taking it apart at the conjunctions
at its top.

One condition can be written in many ways. A comparison can be read from either side, a null test is a
null-safe comparison with null (`Scalar.Restates`), and a conjunction can be nested in any way, with its
conjuncts in any order and as often as one likes (`Scalar.SameConjuncts`).
-/

namespace QueryAnalysis

namespace Scalar

/-- A condition is the conjunction of two others, or it is its only conjunct. -/
@[elab_as_elim]
theorem conjuncts_induction {motive : Scalar → Prop}
    (conjunction : ∀ left right, motive left → motive right → motive (binary left .and right))
    (single : ∀ condition, condition.conjuncts = [condition] → motive condition)
    (condition : Scalar) : motive condition := by
  fun_induction conjuncts condition with
  | case1 left right ihl ihr => exact conjunction left right ihl ihr
  | case2 other hother =>
      refine single other ?_
      unfold conjuncts
      split
      · next left right => exact absurd rfl (hother left right)
      · rfl

theorem conjuncts_and (left right : Scalar) :
    (binary left .and right).conjuncts = left.conjuncts ++ right.conjuncts := rfl

theorem conjuncts_ne_nil (condition : Scalar) : condition.conjuncts ≠ [] := by
  induction condition using conjuncts_induction with
  | conjunction left right ihl ihr => simp [conjuncts_and, ihl]
  | single condition h => simp [h]

/-! ### Restated conditions -/

/-- The two expressions are the same up to the side from which operations are read, the nesting of
conjunctions, and the way in which null tests are written, anywhere in them. -/
inductive Restates : Scalar → Scalar → Prop
  | refl (e : Scalar) : Restates e e
  | symm {e e' : Scalar} : Restates e e' → Restates e' e
  | trans {e e' e'' : Scalar} : Restates e e' → Restates e' e'' → Restates e e''
  /-- An operation is read from the other side. -/
  | swap (left : Scalar) (op : BinaryOperator) (right : Scalar) :
      Restates (.binary left op right) (.binary right op.reverse left)
  /-- A conjunction is nested the other way. -/
  | nest (a b c : Scalar) :
      Restates (.binary (.binary a .and b) .and c) (.binary a .and (.binary b .and c))
  /-- A null test is a null-safe comparison with null. -/
  | nullTest (operand : Scalar) :
      Restates (.isNull operand) (.binary operand .isNotDistinctFrom (.literal .null))
  | binary {left left' right right' : Scalar} (op : BinaryOperator) :
      Restates left left' → Restates right right' →
      Restates (.binary left op right) (.binary left' op right')
  | isNull {operand operand' : Scalar} :
      Restates operand operand' → Restates (.isNull operand) (.isNull operand')
  | aggregate {arg arg' : Scalar} (function : AggregateFunction) (before after : List Scalar)
      (distinct : Bool) : Restates arg arg' →
      Restates (.aggregate function (before ++ arg :: after) distinct)
        (.aggregate function (before ++ arg' :: after) distinct)
  | call {arg arg' : Scalar} (name : String) (before after : List Scalar) : Restates arg arg' →
      Restates (.call name (before ++ arg :: after)) (.call name (before ++ arg' :: after))

/-- The column that an expression is. -/
def column? : Scalar → Option Nat
  | column ordinal => some ordinal
  | _ => none

theorem column?_eq_some_iff {e : Scalar} {ordinal : Nat} :
    e.column? = some ordinal ↔ e = column ordinal := by
  cases e <;> simp [column?]

theorem Restates.column?_eq {e e' : Scalar} (h : e.Restates e') : e.column? = e'.column? := by
  induction h with
  | symm _ ih => exact ih.symm
  | trans _ _ ih ih' => exact ih.trans ih'
  | refl | swap | nest | nullTest | binary | isNull | aggregate | call => rfl

/-! ### The same conjuncts -/

/-- Each conjunct of either predicate restates one of the other. -/
structure SameConjuncts (p p' : Scalar) : Prop where
  left : ∀ c ∈ p.conjuncts, ∃ c' ∈ p'.conjuncts, c.Restates c'
  right : ∀ c' ∈ p'.conjuncts, ∃ c ∈ p.conjuncts, c'.Restates c

namespace SameConjuncts

variable {p p' p'' q q' : Scalar}

/-- The order and the number of conjuncts do not matter. -/
theorem of_mem_iff (h : ∀ c, c ∈ p.conjuncts ↔ c ∈ p'.conjuncts) : p.SameConjuncts p' where
  left c hc := ⟨c, (h c).mp hc, .refl c⟩
  right c hc := ⟨c, (h c).mpr hc, .refl c⟩

theorem refl (p : Scalar) : p.SameConjuncts p :=
  of_mem_iff fun _ => Iff.rfl

theorem symm (h : p.SameConjuncts p') : p'.SameConjuncts p :=
  ⟨h.right, h.left⟩

theorem trans (h : p.SameConjuncts p') (h' : p'.SameConjuncts p'') : p.SameConjuncts p'' where
  left c hc := by
    obtain ⟨c', hc', hrestates⟩ := h.left c hc
    obtain ⟨c'', hc'', hrestates'⟩ := h'.left c' hc'
    exact ⟨c'', hc'', hrestates.trans hrestates'⟩
  right c hc := by
    obtain ⟨c', hc', hrestates⟩ := h'.right c hc
    obtain ⟨c'', hc'', hrestates'⟩ := h.right c' hc'
    exact ⟨c'', hc'', hrestates.trans hrestates'⟩

theorem and_comm (p q : Scalar) : (binary p .and q).SameConjuncts (binary q .and p) :=
  of_mem_iff fun c => by simp only [conjuncts_and, List.mem_append, or_comm]

theorem and_assoc (p q r : Scalar) :
    (binary (binary p .and q) .and r).SameConjuncts (binary p .and (binary q .and r)) :=
  of_mem_iff fun c => by simp only [conjuncts_and, List.mem_append, or_assoc]

theorem and_self (p : Scalar) : (binary p .and p).SameConjuncts p :=
  of_mem_iff fun c => by simp only [conjuncts_and, List.mem_append, or_self]

theorem and (h : p.SameConjuncts p') (h' : q.SameConjuncts q') :
    (binary p .and q).SameConjuncts (binary p' .and q') := by
  have hunion : ∀ {a b a' b' : Scalar}, (∀ c ∈ a.conjuncts, ∃ c' ∈ a'.conjuncts, c.Restates c') →
      (∀ c ∈ b.conjuncts, ∃ c' ∈ b'.conjuncts, c.Restates c') →
      ∀ c ∈ (binary a .and b).conjuncts,
        ∃ c' ∈ (binary a' .and b').conjuncts, c.Restates c' := by
    intro a b a' b' ha hb c hc
    rw [conjuncts_and, List.mem_append] at hc
    rcases hc with hc | hc
    · obtain ⟨c', hc', hrestates⟩ := ha c hc
      exact ⟨c', List.mem_append_left _ hc', hrestates⟩
    · obtain ⟨c', hc', hrestates⟩ := hb c hc
      exact ⟨c', List.mem_append_right _ hc', hrestates⟩
  exact ⟨hunion h.left h'.left, hunion h.right h'.right⟩

end SameConjuncts

theorem conjuncts_of_ne_and {op : BinaryOperator} (h : op ≠ .and) (left right : Scalar) :
    (binary left op right).conjuncts = [binary left op right] := by
  cases op <;> first | rfl | exact absurd rfl h

theorem SameConjuncts.of_single {p p' : Scalar} (h : p.Restates p') (hp : p.conjuncts = [p])
    (hp' : p'.conjuncts = [p']) : p.SameConjuncts p' := by
  refine ⟨?_, ?_⟩
  · rw [hp, hp', List.forall_mem_singleton]
    exact ⟨p', List.mem_singleton_self p', h⟩
  · rw [hp, hp', List.forall_mem_singleton]
    exact ⟨p, List.mem_singleton_self p, h.symm⟩

/-- A restated condition has the same conjuncts. -/
theorem Restates.sameConjuncts {p p' : Scalar} (h : p.Restates p') : p.SameConjuncts p' := by
  induction h with
  | refl e => exact .refl e
  | symm _ ih => exact ih.symm
  | trans _ _ ih ih' => exact ih.trans ih'
  | swap left op right =>
      by_cases hop : op = .and
      · rw [hop]
        exact .and_comm left right
      · have hop' : op.reverse ≠ .and := by
          intro hreverse
          exact hop (by rw [← op.reverse_reverse, hreverse]; rfl)
        exact .of_single (.swap left op right) (conjuncts_of_ne_and hop left right)
          (conjuncts_of_ne_and hop' right left)
  | nest a b c => exact .and_assoc a b c
  | nullTest operand => exact .of_single (.nullTest operand) rfl rfl
  | binary op hl hr ihl ihr =>
      by_cases hop : op = .and
      · rw [hop]
        exact ihl.and ihr
      · exact .of_single (.binary op hl hr) (conjuncts_of_ne_and hop _ _)
          (conjuncts_of_ne_and hop _ _)
  | isNull h _ => exact .of_single (.isNull h) rfl rfl
  | aggregate function before after distinct h _ =>
      exact .of_single (.aggregate function before after distinct h) rfl rfl
  | call name before after h _ => exact .of_single (.call name before after h) rfl rfl

end Scalar

end QueryAnalysis
