import QueryAnalysis.Proofs.Range.Analysis
import QueryAnalysis.Proofs.Range.Tightest

/-!
# The analysis reads a set of conjuncts

One predicate can be written in many ways, which have the same conjuncts up to how these are written
(`Scalar.SameConjuncts`). The analysis makes no difference between them. Restated conjuncts have the
same term, so the terms of the two predicates are the same set (`Scalar.terms?_cases`), and the range of
terms depends on no more than that where their coordinates stand in a row. `RangePolicy.InRow` names the
two cases in which they do, and `RangePolicy.analyze_eq_of_sameConjuncts` puts it together.
-/

namespace QueryAnalysis

/-! ### Restated conjuncts -/

namespace Scalar

/-- The term of a comparison, by what its sides are. -/
theorem term?_binary (left : Scalar) (op : BinaryOperator) (right : Scalar) :
    (binary left op right).term? =
      match left.column?, right.column? with
      | some ordinal, _ =>
        (right.coordinate?.bind (Term.ofComparison? op)).map fun term => (ordinal, term)
      | none, some ordinal =>
        (left.coordinate?.bind (Term.ofComparison? op.reverse)).map fun term => (ordinal, term)
      | none, none => none := by
  have hread : ∀ (ordinal : Nat) (found : Option Coordinate) (op : BinaryOperator),
      (do
        let coordinate ← found
        let term ← Term.ofComparison? op coordinate
        some (ordinal, term)) = (found.bind (Term.ofComparison? op)).map fun term =>
          (ordinal, term) := by
    intro ordinal found op
    cases found with
    | none => rfl
    | some c =>
        show (Term.ofComparison? op c).bind _ = (Term.ofComparison? op c).map _
        cases Term.ofComparison? op c <;> rfl
  cases left with
  | column i => exact hread i right.coordinate? op
  | _ =>
      cases right with
      | column j => exact hread j _ op.reverse
      | _ => rfl

theorem term?_isNull (operand : Scalar) :
    (isNull operand).term? = operand.column?.map fun ordinal =>
      (ordinal, .point (.literal .null) true) := by
  cases operand <;> rfl

/-- A conjunction is no comparison. -/
theorem term?_and (left right : Scalar) : (binary left .and right).term? = none := by
  have hnone : ∀ found : Option Coordinate, found.bind (Term.ofComparison? .and) = none := by
    intro found
    cases found <;> rfl
  rw [term?_binary, show BinaryOperator.and.reverse = .and from rfl, hnone, hnone]
  cases left.column? <;> cases right.column? <;> rfl

theorem coordinate?_of_column? {e : Scalar} {ordinal : Nat} (h : e.column? = some ordinal) :
    e.coordinate? = none := by
  cases e with
  | column => rfl
  | _ => exact absurd h (by simp [column?])

/-- What the analysis sees of an expression, as a conjunct and as an operand. -/
structure SameView (e e' : Scalar) : Prop where
  column?_eq : e.column? = e'.column?
  coordinate?_eq : e.coordinate? = e'.coordinate?
  term?_eq : e.term? = e'.term?

theorem Restates.sameView {e e' : Scalar} (h : e.Restates e') : e.SameView e' := by
  induction h with
  | refl e => exact ⟨rfl, rfl, rfl⟩
  | symm _ ih => exact ⟨ih.column?_eq.symm, ih.coordinate?_eq.symm, ih.term?_eq.symm⟩
  | trans _ _ ih ih' =>
      exact ⟨ih.column?_eq.trans ih'.column?_eq, ih.coordinate?_eq.trans ih'.coordinate?_eq,
        ih.term?_eq.trans ih'.term?_eq⟩
  | swap left op right =>
      refine ⟨rfl, rfl, ?_⟩
      rw [term?_binary, term?_binary, BinaryOperator.reverse_reverse]
      -- Of two columns neither has a coordinate.
      cases hleft : left.column? with
      | none => cases right.column? <;> rfl
      | some i =>
          cases hright : right.column? with
          | none => rfl
          | some j => rw [coordinate?_of_column? hleft, coordinate?_of_column? hright]; rfl
  | nest a b c => exact ⟨rfl, rfl, (term?_and _ _).trans (term?_and _ _).symm⟩
  | nullTest operand =>
      refine ⟨rfl, rfl, ?_⟩
      rw [term?_binary, term?_isNull]
      cases operand.column? <;> rfl
  | binary op _ _ ihl ihr =>
      refine ⟨rfl, rfl, ?_⟩
      rw [term?_binary, term?_binary, ihl.column?_eq, ihr.column?_eq, ihl.coordinate?_eq,
        ihr.coordinate?_eq]
  | isNull _ ih =>
      refine ⟨rfl, rfl, ?_⟩
      rw [term?_isNull, term?_isNull, ih.column?_eq]
  | aggregate | call => exact ⟨rfl, rfl, rfl⟩

/-! ### The terms of the conjuncts -/

variable {p p' : Scalar} {ordinal : Nat} {terms : List Term}

/-- The terms of a predicate are those that its conjuncts have. -/
theorem mem_terms_iff (h : p.terms? = some (ordinal, terms)) (t : Term) :
    t ∈ terms ↔ ∃ c ∈ p.conjuncts, c.term? = some (ordinal, t) := by
  have hforall := forall₂_term?_of_terms? h
  constructor
  · intro ht
    exact exists_of_forall₂ hforall.flip t ht
  · intro hc
    obtain ⟨c, hc, hterm⟩ := hc
    obtain ⟨t', ht', hterm'⟩ := exists_of_forall₂ hforall c hc
    obtain ⟨-, rfl⟩ := Prod.mk.inj (Option.some.inj (hterm.symm.trans hterm'))
    exact ht'

/-- A predicate has terms if all its conjuncts have terms on one column. -/
theorem exists_terms? (h : ∀ c ∈ p.conjuncts, ∃ t, c.term? = some (ordinal, t)) :
    ∃ terms, p.terms? = some (ordinal, terms) := by
  have hdefined : ∀ c ∈ p.conjuncts, ∃ pair, c.term? = some pair := by
    intro c hc
    obtain ⟨t, ht⟩ := h c hc
    exact ⟨_, ht⟩
  obtain ⟨found, hfound⟩ := exists_mapM_eq_some hdefined
  have hforall := forall₂_of_mapM_eq_some hfound
  have hcolumn : ∀ pair ∈ found, pair.1 = ordinal := by
    intro pair hpair
    obtain ⟨c, hc, hterm⟩ := exists_of_forall₂ hforall.flip pair hpair
    obtain ⟨t, ht⟩ := h c hc
    exact congrArg Prod.fst (Option.some.inj (hterm.symm.trans ht))
  cases found with
  | nil => exact absurd (List.forall₂_nil_right_iff.mp hforall) p.conjuncts_ne_nil
  | cons first found =>
      obtain rfl := hcolumn first List.mem_cons_self
      refine ⟨(first :: found).map Prod.snd, ?_⟩
      rw [terms?, hfound]
      refine if_pos (List.all_eq_true.mpr fun pair hpair => ?_)
      exact beq_iff_eq.mpr (hcolumn pair hpair)

/-- Predicates with the same conjuncts have no terms, or the same set of terms. -/
theorem terms?_cases (h : p.SameConjuncts p') :
    (p.terms? = none ∧ p'.terms? = none) ∨
      ∃ ordinal terms terms', p.terms? = some (ordinal, terms) ∧ p'.terms? = some (ordinal, terms') ∧
        ∀ t, t ∈ terms' ↔ t ∈ terms := by
  have hmove : ∀ {p p' : Scalar} {ordinal : Nat} {terms : List Term}, p.SameConjuncts p' →
      p.terms? = some (ordinal, terms) → ∃ terms', p'.terms? = some (ordinal, terms') := by
    intro p p' ordinal terms h hterms
    refine exists_terms? fun c' hc' => ?_
    obtain ⟨c, hc, hrestates⟩ := h.right c' hc'
    obtain ⟨t, -, hterm⟩ := exists_of_forall₂ (forall₂_term?_of_terms? hterms) c hc
    exact ⟨t, hrestates.sameView.term?_eq.trans hterm⟩
  cases hterms : p.terms? with
  | none =>
      cases hterms' : p'.terms? with
      | none => exact .inl ⟨rfl, rfl⟩
      | some found =>
          obtain ⟨terms, hsome⟩ := hmove h.symm hterms'
          exact absurd (hterms.symm.trans hsome) (by simp)
  | some found =>
      obtain ⟨ordinal, terms⟩ := found
      obtain ⟨terms', hterms'⟩ := hmove h hterms
      refine .inr ⟨ordinal, terms, terms', rfl, hterms', fun t => ?_⟩
      rw [mem_terms_iff hterms, mem_terms_iff hterms']
      constructor
      · intro ht
        obtain ⟨c', hc', hterm⟩ := ht
        obtain ⟨c, hc, hrestates⟩ := h.right c' hc'
        exact ⟨c, hc, hrestates.sameView.term?_eq.symm.trans hterm⟩
      · intro ht
        obtain ⟨c, hc, hterm⟩ := ht
        obtain ⟨c', hc', hrestates⟩ := h.left c hc
        exact ⟨c', hc', hrestates.sameView.term?_eq.symm.trans hterm⟩

end Scalar

/-! ### Predicates whose coordinates stand in a row -/

/-- The literals of the predicate other than null are all truth values, all integers or all strings;
or they are numbers, and coordinates are rounded, the columns being integral. -/
inductive RangePolicy.InRow (policy : RangePolicy) (schema : Schema) (predicate : Scalar) : Prop
  | alike {v : Literal} : (∀ d, v ≠ .float d) →
      (∀ l ∈ predicate.literals, l ≠ .null → l.Alike v) → InRow policy schema predicate
  | rounded : policy.roundsIntegral = true →
      (∀ field ∈ schema, ∃ range, field.type.integralRange? = some range) →
      (∀ l ∈ predicate.literals, l ≠ .null → l.isNumber = true) → InRow policy schema predicate

theorem Endpoint.On.and {role : Role} {S S' : Literal → Prop} {e : Endpoint} (h : e.On role S)
    (h' : e.On role S') : e.On role fun c => S c ∧ S' c := by
  match e, h, h' with
  | negInfinity, _, _ | posInfinity, _, _ => trivial
  | finite _ _ (.literal c), ⟨hrole, hc⟩, ⟨_, hc'⟩ => exact ⟨hrole, hc, hc'⟩

namespace RangePolicy

variable {policy : RangePolicy} {schema : Schema} {predicate predicate' : Scalar}

/-- The endpoints at the literals of the predicate stand in a row, on every column. -/
theorem InRow.exists_row (h : policy.InRow schema predicate) {field : Field}
    (hfield : field ∈ schema) :
    ∃ S, Literal.InRow S ∧ ∀ role s l, l ∈ predicate.literals ∨ l = .null →
      (policy.endpoint field.domain role s (.literal l)).On role S := by
  cases h with
  | @alike v hv hliterals =>
      refine ⟨v.PeerOf, Literal.inRow_peerOf hv, fun role s l hl => ?_⟩
      have hpeer : v.PeerOf l := by
        by_cases hnull : l = .null
        · exact .inl hnull
        · exact .inr (hliterals l (hl.resolve_right hnull) hnull)
      cases l with
      | int i =>
          -- Among integers rounding leads to integers.
          refine on_endpoint hpeer (fun j => .inr ?_) role s
          cases hpeer.resolve_left (by simp) with
          | int => exact .int
      | float d =>
          cases hpeer.resolve_left (by simp) with
          | float => exact absurd rfl (hv _)
      | _ =>
          rw [endpoint_of_integral?_eq_none rfl]
          exact ⟨rfl, hpeer⟩
  | rounded hrounds hschema hliterals =>
      refine ⟨Literal.IsIntegral, Literal.inRow_isIntegral, fun role s l hl => ?_⟩
      obtain ⟨⟨least, greatest⟩, hrange⟩ := hschema field hfield
      have hnumber : l = .null ∨ l.isNumber = true := by
        by_cases hnull : l = .null
        · exact .inl hnull
        · exact .inr (hliterals l (hl.resolve_right hnull) hnull)
      rw [endpoint, if_pos hrounds]
      exact (Endpoint.on_rounded_of_integral hrange l).and
        (Endpoint.on_rounded field.domain hnumber fun i => .inr rfl)

/-- **The analysis depends on the set of conjuncts.** Take a predicate without parameters whose
literals, other than null, are of one variant that is not that of doubles, or are numbers if coordinates
are rounded and all columns are integral. However its conjunctions are nested, whatever the order of
the conjuncts and however often they are repeated, from whichever side its comparisons are read and in
whichever way its null tests are written, the analysis gives the same: the same error, no range, or the
same range of the same column. -/
theorem analyze_eq_of_sameConjuncts (hfree : predicate.parameterFree = true)
    (hrow : policy.InRow schema predicate) (hsame : predicate.SameConjuncts predicate') :
    policy.analyze schema predicate' = policy.analyze schema predicate := by
  rcases Scalar.terms?_cases hsame with ⟨hterms, hterms'⟩ |
    ⟨ordinal, terms, terms', hterms, hterms', hmem⟩
  · rw [analyze, analyze, hterms, hterms']
  · have hof : TermsOf (fun l => l ∈ predicate.literals ∨ l = .null) terms :=
      termsOf_of_forall₂ (Scalar.forall₂_of_terms? hfree hterms)
    simp only [analyze, hterms, hterms']
    cases hfield : schema[ordinal]? with
    | none => rfl
    | some field =>
        obtain ⟨S, hS, hon⟩ := hrow.exists_row (List.mem_of_getElem? hfield)
        have hterm := on_termInterval_of_mem hof hon
        simp only [constraint?_congr hS hterm hmem]

end RangePolicy

/-- `a <= 10 AND (1.5 < a AND 10 >= a)`. -/
def upToTenAndAbove : Scalar :=
  .binary (.binary (.column 0) .lte (.literal (.int 10))) .and
    (.binary (.binary (.literal (.float ⟨0x3FF8000000000000⟩)) .lt (.column 0)) .and
      (.binary (.literal (.int 10)) .gte (.column 0)))

/-- `a > 1.5 AND 10 >= a`, with the conjuncts exchanged, one repeated, and comparisons read from the
other side. The range is `[2, 10]` as before. -/
theorem analyze_eq_of_sameConjuncts_aboveOneAndAHalf :
    aboveOneAndAHalf.SameConjuncts upToTenAndAbove ∧
      ({} : RangePolicy).analyze [⟨"a", .int8, true⟩] upToTenAndAbove = .ok (some ⟨0,
        ⟨⟨.int8, true⟩, .matchesNothing, .finite .lower .closed (.literal (.int 2)),
          .finite .upper .closed (.literal (.int 10))⟩⟩) := by
  have hsame : aboveOneAndAHalf.SameConjuncts upToTenAndAbove := by
    refine (Scalar.SameConjuncts.and_comm _ _).trans ?_
    refine ((Scalar.SameConjuncts.and_self _).symm.and (.refl _)).trans ?_
    refine (Scalar.SameConjuncts.and_assoc _ _ _).trans ?_
    refine .and (Scalar.Restates.swap _ _ _).sameConjuncts ?_
    exact (Scalar.SameConjuncts.and_comm _ _).trans
      (.and (Scalar.Restates.swap _ _ _).sameConjuncts (.refl _))
  have hrow : ({} : RangePolicy).InRow [⟨"a", .int8, true⟩] aboveOneAndAHalf := by
    refine .rounded rfl ?_ ?_
    · rw [List.forall_mem_singleton]
      exact ⟨_, rfl⟩
    · intro l hl _
      simp only [aboveOneAndAHalf, Scalar.literals, List.nil_append, List.append_nil,
        List.cons_append, List.mem_cons, List.not_mem_nil, or_false] at hl
      rcases hl with rfl | rfl <;> decide
  refine ⟨hsame, (RangePolicy.analyze_eq_of_sameConjuncts rfl hrow hsame).trans ?_⟩
  decide

end QueryAnalysis
