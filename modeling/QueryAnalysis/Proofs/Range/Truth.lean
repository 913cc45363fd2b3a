import QueryAnalysis.Proofs.Conjuncts
import QueryAnalysis.Proofs.Lists
import QueryAnalysis.Proofs.Range.Rounding

/-!
# What predicates on a column say

`Scalar.TrueOf` is the truth of a conjunct for one value of a column, given how values compare. A
comparison with null is not true, whatever the operator, except that `IS NOT DISTINCT FROM` takes
null for a value that equals itself alone.

A conjunct from which the analysis takes a term compares the column with a literal
(`Scalar.Compares`): null tests and both orders of the operands come down to one operator and one
literal, and the truth of the conjunct to that of `BinaryOperator.TrueOf`.

`Reading` names the two ways in which values and literals are compared: as exact numbers for a
column of integers, and by `Literal.compare?` where all values are of one variant.
-/

namespace QueryAnalysis

/-! ### Truth -/

namespace BinaryOperator

/-- Whether a comparison is true of two values that compare in a given way. -/
def Accepts : BinaryOperator → Ordering → Prop
  | eq, x | isNotDistinctFrom, x => x = .eq
  | neq, x => x ≠ .eq
  | lt, x => x = .lt
  | lte, x => x ≠ .gt
  | gt, x => x = .gt
  | gte, x => x ≠ .lt
  | and, _ | or, _ => False

/-- Whether a comparison is true of two values. Null is not distinct from null; apart from that no
comparison with null is true. -/
def TrueOf (order : Literal → Literal → Option Ordering) (op : BinaryOperator) (a b : Literal) :
    Prop :=
  (op = isNotDistinctFrom ∧ a = .null ∧ b = .null) ∨
    (a ≠ .null ∧ b ≠ .null ∧ ∃ x, order a b = some x ∧ op.Accepts x)

theorem accepts_reverse (op : BinaryOperator) (x : Ordering) :
    op.reverse.Accepts x ↔ op.Accepts x.swap := by
  cases op <;> cases x <;> simp [Accepts, reverse]

/-- Exchanging the operands of a comparison and reversing it changes nothing. -/
theorem trueOf_reverse {order : Literal → Literal → Option Ordering} {a b : Literal}
    (hswap : order b a = (order a b).map Ordering.swap) (op : BinaryOperator) :
    op.reverse.TrueOf order a b ↔ op.TrueOf order b a := by
  have hsafe : op.reverse = isNotDistinctFrom ↔ op = isNotDistinctFrom := by
    cases op <;> simp [reverse]
  simp only [TrueOf, hsafe, hswap, Option.map_eq_some_iff, accepts_reverse]
  constructor
  · rintro (⟨hop, ha, hb⟩ | ⟨ha, hb, x, hx, haccepts⟩)
    · exact .inl ⟨hop, hb, ha⟩
    · exact .inr ⟨hb, ha, x.swap, ⟨x, hx, rfl⟩, haccepts⟩
  · rintro (⟨hop, hb, ha⟩ | ⟨hb, ha, _, ⟨x, hx, rfl⟩, haccepts⟩)
    · exact .inl ⟨hop, ha, hb⟩
    · exact .inr ⟨ha, hb, x, hx, haccepts⟩

/-- A comparison is true if it holds of the two values as ordinary ones, and neither is null unless
it is null-safe. -/
theorem trueOf_compare?_iff {op : BinaryOperator} {v l : Literal} :
    op.TrueOf Literal.compare? v l ↔ (∃ x, v.compare? l = some x ∧ op.Accepts x) ∧
      (op = .isNotDistinctFrom ∨ (v ≠ .null ∧ l ≠ .null)) := by
  constructor
  · rintro (⟨rfl, rfl, rfl⟩ | ⟨hv, hl, haccepts⟩)
    · exact ⟨⟨.eq, rfl, rfl⟩, .inl rfl⟩
    · exact ⟨haccepts, .inr ⟨hv, hl⟩⟩
  · rintro ⟨⟨x, hx, haccepts⟩, hop⟩
    by_cases hnull : v ≠ .null ∧ l ≠ .null
    · exact .inr ⟨hnull.1, hnull.2, x, hx, haccepts⟩
    · -- What is not distinct from null is null.
      obtain rfl := hop.resolve_right hnull
      obtain rfl : x = .eq := haccepts
      have hiff := Literal.eq_null_iff_of_compare?_eq hx
      have hboth : v = .null ∧ l = .null := by
        rw [hiff, and_self]
        by_contra hl
        exact hnull ⟨mt hiff.mp hl, hl⟩
      exact .inl ⟨rfl, hboth⟩

end BinaryOperator

namespace Scalar

/-- The value of an operand for a value of the column, if it is the column or a literal. -/
def valueAt? (ordinal : Nat) (v : Literal) : Scalar → Option Literal
  | column other => if other = ordinal then some v else none
  | literal l => some l
  | _ => none

/-- Whether a conjunct is true of a value of the column. -/
def TrueOf (order : Literal → Literal → Option Ordering) (ordinal : Nat) (v : Literal) :
    Scalar → Prop
  | isNull operand => operand.valueAt? ordinal v = some .null
  | binary left op right =>
    ∃ a b, left.valueAt? ordinal v = some a ∧ right.valueAt? ordinal v = some b ∧ op.TrueOf order a b
  | _ => False

/-! ### Literals and parameters of a predicate -/

mutual

/-- The literals that an expression is written with. -/
def literals : Scalar → List Literal
  | column _ => []
  | literal value => [value]
  | parameter _ => []
  | binary left _ right => left.literals ++ right.literals
  | isNull operand => operand.literals
  | aggregate _ args _ => literalsOfAll args
  | call _ args => literalsOfAll args

/-- The literals that any of the expressions is written with. -/
def literalsOfAll : List Scalar → List Literal
  | [] => []
  | arg :: args => arg.literals ++ literalsOfAll args

end

mutual

/-- Whether an expression is written without parameters. -/
def parameterFree : Scalar → Bool
  | column _ => true
  | literal _ => true
  | parameter _ => false
  | binary left _ right => left.parameterFree && right.parameterFree
  | isNull operand => operand.parameterFree
  | aggregate _ args _ => allParameterFree args
  | call _ args => allParameterFree args

/-- Whether all of the expressions are written without parameters. -/
def allParameterFree : List Scalar → Bool
  | [] => true
  | arg :: args => arg.parameterFree && allParameterFree args

end

variable {predicate conjunct : Scalar}

theorem literals_subset_of_mem_conjuncts (h : conjunct ∈ predicate.conjuncts) :
    conjunct.literals ⊆ predicate.literals := by
  induction predicate using conjuncts_induction with
  | conjunction left right ihl ihr =>
      rw [literals]
      rcases List.mem_append.mp h with h | h
      · exact List.subset_append_of_subset_left _ (ihl h)
      · exact List.subset_append_of_subset_right _ (ihr h)
  | single condition hsingle =>
      rw [hsingle] at h
      rw [List.mem_singleton.mp h]
      exact List.Subset.refl _

theorem parameterFree_of_mem_conjuncts (hfree : predicate.parameterFree = true)
    (h : conjunct ∈ predicate.conjuncts) : conjunct.parameterFree = true := by
  induction predicate using conjuncts_induction with
  | conjunction left right ihl ihr =>
      rw [parameterFree, Bool.and_eq_true] at hfree
      rcases List.mem_append.mp h with h | h
      · exact ihl hfree.1 h
      · exact ihr hfree.2 h
  | single condition hsingle =>
      rw [hsingle] at h
      rwa [List.mem_singleton.mp h]

/-! ### Conjuncts that compare a column with a literal -/

/-- The conjunct says that a column stands in a relation to a literal. -/
inductive Compares (ordinal : Nat) : BinaryOperator → Literal → Scalar → Prop
  /-- A null test asks for null as a null-safe comparison does. -/
  | isNull : Compares ordinal .isNotDistinctFrom .null (isNull (column ordinal))
  | left {op : BinaryOperator} {l : Literal} :
      Compares ordinal op l (binary (column ordinal) op (literal l))
  | right {op : BinaryOperator} {l : Literal} :
      Compares ordinal op.reverse l (binary (literal l) op (column ordinal))

/-- A conjunct without parameters from which a term is taken compares its column with a literal, and
the term is that of the comparison. -/
theorem compares_of_term? (hfree : conjunct.parameterFree = true) {ordinal : Nat} {term : Term}
    (h : conjunct.term? = some (ordinal, term)) :
    ∃ op l, Compares ordinal op l conjunct ∧ Term.ofComparison? op (.literal l) = some term := by
  have hcoordinate : ∀ {value : Scalar} {c : Coordinate}, value.parameterFree = true →
      value.coordinate? = some c → ∃ l, value = literal l ∧ c = .literal l := by
    intro value c hvalue hc
    unfold coordinate? at hc
    split at hc
    · next l => exact ⟨l, rfl, (Option.some.inj hc).symm⟩
    · exact absurd hvalue Bool.false_ne_true
    · exact absurd hc (by simp)
  unfold term? at h
  split at h
  · next i =>
      obtain ⟨rfl, rfl⟩ := Prod.mk.inj (Option.some.inj h)
      exact ⟨_, _, .isNull, rfl⟩
  · next i op value =>
      obtain ⟨c, hc, h⟩ := Option.bind_eq_some_iff.mp h
      obtain ⟨t, ht, h⟩ := Option.bind_eq_some_iff.mp h
      obtain ⟨rfl, rfl⟩ := Prod.mk.inj (Option.some.inj h)
      rw [parameterFree, Bool.and_eq_true] at hfree
      obtain ⟨l, rfl, rfl⟩ := hcoordinate hfree.2 hc
      exact ⟨op, l, .left, ht⟩
  · next value op i _ =>
      obtain ⟨c, hc, h⟩ := Option.bind_eq_some_iff.mp h
      obtain ⟨t, ht, h⟩ := Option.bind_eq_some_iff.mp h
      obtain ⟨rfl, rfl⟩ := Prod.mk.inj (Option.some.inj h)
      rw [parameterFree, Bool.and_eq_true] at hfree
      obtain ⟨l, rfl, rfl⟩ := hcoordinate hfree.1 hc
      exact ⟨op.reverse, l, .right, ht⟩
  · exact absurd h (by simp)

/-- The literal of a comparison is one that the conjunct is written with, or null. -/
theorem Compares.mem_literals {ordinal : Nat} {op : BinaryOperator} {l : Literal}
    (h : Compares ordinal op l conjunct) (hl : l ≠ .null) : l ∈ conjunct.literals := by
  cases h with
  | isNull => exact absurd rfl hl
  | left => simp [literals]
  | right => simp [literals]

/-- The truth of a conjunct is that of its comparison. -/
theorem Compares.trueOf_iff {order : Literal → Literal → Option Ordering} {ordinal : Nat}
    {op : BinaryOperator} {l v : Literal} (h : Compares ordinal op l conjunct)
    (hswap : order l v = (order v l).map Ordering.swap) :
    conjunct.TrueOf order ordinal v ↔ op.TrueOf order v l := by
  cases h with
  | isNull => simp [TrueOf, valueAt?, BinaryOperator.TrueOf]
  | left => simp [TrueOf, valueAt?]
  | right =>
      rw [BinaryOperator.trueOf_reverse hswap]
      simp [TrueOf, valueAt?]

end Scalar

/-- The term of a comparison with a literal. -/
inductive Term.Of : BinaryOperator → Literal → Term → Prop
  | never {op : BinaryOperator} : op ≠ .isNotDistinctFrom → Of op .null .contradiction
  | same {l : Literal} : Of .isNotDistinctFrom l (.point (.literal l) true)
  | equal {l : Literal} : l ≠ .null → Of .eq l (.point (.literal l) false)
  | above {l : Literal} : l ≠ .null → Of .gt l (.lower (.literal l) .opened)
  | atLeast {l : Literal} : l ≠ .null → Of .gte l (.lower (.literal l) .closed)
  | below {l : Literal} : l ≠ .null → Of .lt l (.upper (.literal l) .opened)
  | atMost {l : Literal} : l ≠ .null → Of .lte l (.upper (.literal l) .closed)

theorem Term.of_ofComparison? {op : BinaryOperator} {l : Literal} {term : Term}
    (h : Term.ofComparison? op (.literal l) = some term) : Term.Of op l term := by
  by_cases hl : l = .null
  · subst hl
    cases op with
    | isNotDistinctFrom =>
        obtain rfl := Option.some.inj h
        exact .same
    | neq | and | or => exact absurd h (by simp [ofComparison?])
    | _ =>
        obtain rfl := Option.some.inj h
        exact .never (by simp)
  · have hnull : (Coordinate.literal l).isNull = false := by
      cases l with
      | null => exact absurd rfl hl
      | _ => rfl
    cases op with
    | neq | and | or => exact absurd h (by simp [ofComparison?])
    | _ =>
        simp only [ofComparison?, hnull, Bool.false_eq_true, if_false, Option.some.injEq] at h
        obtain rfl := h
        first
        | exact .same
        | exact .equal hl
        | exact .above hl
        | exact .atLeast hl
        | exact .below hl
        | exact .atMost hl

/-- The term stands for the conjunct: both are the same comparison with a literal of the
predicate. -/
def Scalar.TermOf (predicate : Scalar) (ordinal : Nat) (conjunct : Scalar) (term : Term) : Prop :=
  ∃ op l, Compares ordinal op l conjunct ∧ Term.Of op l term ∧ (l ∈ predicate.literals ∨ l = .null)

/-- The terms of a predicate are those of its conjuncts, one by one, and all on one column. -/
theorem Scalar.forall₂_term?_of_terms? {predicate : Scalar} {ordinal : Nat} {terms : List Term}
    (h : predicate.terms? = some (ordinal, terms)) :
    List.Forall₂ (fun conjunct term => conjunct.term? = some (ordinal, term)) predicate.conjuncts
      terms := by
  obtain ⟨found, hfound, h⟩ := Option.bind_eq_some_iff.mp h
  obtain ⟨⟨first, term⟩, hfirst, h⟩ := Option.bind_eq_some_iff.mp h
  simp only at h
  split at h
  · next hall =>
      obtain ⟨rfl, rfl⟩ := Prod.mk.inj (Option.some.inj h)
      have hsame : ∀ pair ∈ found, pair.1 = first := by
        intro pair hpair
        simpa using List.all_eq_true.mp hall pair hpair
      have hboth := ((List.forall₂_and_left _ _).mpr
        ⟨hsame, (forall₂_of_mapM_eq_some hfound).flip⟩).flip
      rw [List.forall₂_map_right_iff]
      refine hboth.imp ?_
      rintro conjunct ⟨_, term⟩ ⟨rfl, hterm⟩
      exact hterm
  · exact absurd h (by simp)

/-- The terms of a predicate without parameters stand for its conjuncts. -/
theorem Scalar.forall₂_of_terms? {predicate : Scalar} {ordinal : Nat} {terms : List Term}
    (hfree : predicate.parameterFree = true) (h : predicate.terms? = some (ordinal, terms)) :
    List.Forall₂ (predicate.TermOf ordinal) predicate.conjuncts terms := by
  have hmem : ∀ conjunct ∈ predicate.conjuncts,
      conjunct.parameterFree = true ∧ conjunct.literals ⊆ predicate.literals := fun _ hmem =>
    ⟨parameterFree_of_mem_conjuncts hfree hmem, literals_subset_of_mem_conjuncts hmem⟩
  refine ((List.forall₂_and_left _ _).mpr ⟨hmem, forall₂_term?_of_terms? h⟩).imp ?_
  rintro conjunct term ⟨⟨hfree, hliterals⟩, hterm⟩
  obtain ⟨op, l, hcompares, hof⟩ := compares_of_term? hfree hterm
  refine ⟨op, l, hcompares, Term.of_ofComparison? hof, ?_⟩
  by_cases hl : l = .null
  · exact .inr hl
  · exact .inl (hliterals (hcompares.mem_literals hl))

/-! ### Ways of comparing -/

/-- How a value of a column and the literals of a predicate are compared. -/
inductive Reading (policy : RangePolicy) (type : DataType) (predicate : Scalar) :
    Literal → (Literal → Literal → Option Ordering) → Prop
  /-- An integer of an integral column, when coordinates are rounded: as exact numbers. -/
  | exact {least greatest : Int} {i : Int64} : policy.roundsIntegral = true →
      type.integralRange? = some (least, greatest) → least ≤ i.toInt → i.toInt ≤ greatest →
      Reading policy type predicate (.int i) Literal.exactCompare?
  /-- Values of one variant, when nothing is rounded: as literals. -/
  | alike {v : Literal} : policy.roundsIntegral = false ∨ type.integralRange? = none → v.Alike v →
      (∀ l ∈ predicate.literals, l ≠ .null → l.Alike v) →
      Reading policy type predicate v Literal.compare?

namespace Reading

variable {policy : RangePolicy} {domain : Domain} {predicate : Scalar} {v : Literal}
  {order : Literal → Literal → Option Ordering}

theorem ne_null {type : DataType} (h : Reading policy type predicate v order) : v ≠ .null := by
  cases h with
  | exact => simp
  | alike _ hv _ => exact hv.ne_null

theorem swap {type : DataType} (h : Reading policy type predicate v order) (a b : Literal) :
    order b a = (order a b).map Ordering.swap := by
  cases h with
  | exact => exact Literal.exactCompare?_swap a b
  | alike => exact Literal.compare?_swap a b

/-- Endpoints are unchanged where nothing is rounded. -/
theorem endpoint_of_alike (h : policy.roundsIntegral = false ∨ domain.type.integralRange? = none)
    (role : Role) (s : Strictness) (c : Coordinate) :
    policy.endpoint domain role s c = .finite role s c := by
  unfold RangePolicy.endpoint
  split
  · next hrounds =>
      rcases h with h | h
      · exact absurd (h.symm.trans hrounds) Bool.false_ne_true
      · exact Endpoint.rounded_of_integralRange?_eq_none h
  · rfl

/-- The endpoint at a literal of the predicate admits the value just if the two compare as the
endpoint asks. -/
theorem admits_endpoint_iff (h : Reading policy domain.type predicate v order) {l : Literal}
    (hl : l ≠ .null) (role : Role) (s : Strictness) :
    (policy.endpoint domain role s (.literal l)).Admits role v ↔
      ∃ x, order v l = some x ∧ s.Allows role x := by
  cases h with
  | exact hrounds hrange hlow hhigh =>
      rw [RangePolicy.endpoint, if_pos hrounds]
      exact Endpoint.admits_rounded_iff hrange ⟨hlow, hhigh⟩ hl
  | alike hrounds _ _ =>
      rw [endpoint_of_alike hrounds]
      exact Endpoint.admits_finite_iff

/-- The endpoints at the literals of the predicate stand at coordinates that the value can be
compared with. -/
theorem exists_coherent (h : Reading policy domain.type predicate v order) :
    ∃ S, v.CoherentAt S ∧ ∀ role s l, l ∈ predicate.literals ∨ l = .null →
      (policy.endpoint domain role s (.literal l)).On role S := by
  cases h with
  | @exact least greatest i hrounds hrange _ _ =>
      -- Rounding leaves no finite double among the coordinates.
      refine ⟨fun c => c.isFiniteFloat = false, ?_, ?_⟩
      · exact Literal.Uniform.coherentAt (.inl fun c hc => hc) rfl
      · intro role s l _
        rw [RangePolicy.endpoint, if_pos hrounds]
        exact Endpoint.on_rounded_of_integral hrange l
  | alike hrounds hv hliterals =>
      refine ⟨v.PeerOf, (Literal.uniform_peerOf v).coherentAt (.inr hv), ?_⟩
      intro role s l hl
      rw [endpoint_of_alike hrounds]
      refine ⟨rfl, ?_⟩
      by_cases hnull : l = .null
      · exact .inl hnull
      · exact .inr (hliterals l (hl.resolve_right hnull) hnull)

end Reading

end QueryAnalysis
