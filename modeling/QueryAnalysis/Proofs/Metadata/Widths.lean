import QueryAnalysis.Proofs.Metadata.Soundness

/-!
# Derived keys stay inside the row

A derived key names columns by their ordinals in the operator's row, and each operator counts them in
its own way: a join moves right ordinals up by the left width, a projection replaces them by places of
its output, an aggregate numbers its grouping columns anew. None of them ever counts beyond the row.

Schemas are data of a plan, and so are the keys of a scan, so this holds of plans in which they fit the
operators (`Plan.WellSized`). Each operator then keeps `Derived.Within`, and the induction over the
plan is one case per operator.
-/

namespace QueryAnalysis

/-! ### Columns within a row -/

/-- All columns of the set are columns of a row of this width. -/
def ColumnSet.Within (columns : ColumnSet) (width : Nat) : Prop :=
  ∀ n ∈ columns, n < width

namespace ColumnSet.Within

variable {s t : ColumnSet} {width width' : Nat}

theorem empty (width : Nat) : ColumnSet.empty.Within width := by
  intro n hn
  rw [mem_iff_contains, contains_empty] at hn
  exact absurd hn Bool.false_ne_true

theorem mono (h : s.Within width) (hle : width ≤ width') : s.Within width' :=
  fun n hn => Nat.lt_of_lt_of_le (h n hn) hle

theorem union (hs : s.Within width) (ht : t.Within width) : (s.union t).Within width := by
  intro n hn
  rw [mem_iff_contains, contains_union, Bool.or_eq_true] at hn
  rcases hn with hn | hn
  · exact hs n hn
  · exact ht n hn

/-- The columns of a right row are within the joined row after they are moved up. -/
theorem shift (h : s.Within width) (offset : Nat) : (s.shift offset).Within (offset + width) := by
  intro n hn
  rw [mem_iff_contains, contains_shift, Bool.and_eq_true, decide_eq_true_eq] at hn
  have hlt := h (n - offset) hn.2
  omega

theorem range (start stop : Nat) : (ColumnSet.range start stop).Within stop := by
  intro n hn
  rw [mem_iff_contains, contains_range, decide_eq_true_eq] at hn
  exact hn.2

theorem ofList {ns : List Nat} (h : ∀ n ∈ ns, n < width) : (ColumnSet.ofList ns).Within width := by
  intro n hn
  rw [mem_iff_contains, contains_ofList, decide_eq_true_eq] at hn
  exact h n hn

end ColumnSet.Within

/-! ### Plans whose schemas fit -/

/-- The schema of an operator fits what the operator makes of its inputs, and the keys of a scan fit
its schema. -/
def Plan.FitsSchema : Plan → Prop
  | .scan _ schema keys => ∀ key ∈ keys, key.Within schema.length
  | .project _ columns schema => schema.length = columns.length
  | .aggregate _ group _ schema => group.size ≤ schema.length
  | .join left right _ _ schema => schema.length = left.width + right.width
  | .correlate left right _ _ schema => schema.length = left.width + right.width
  | _ => True

/-- All operators of the plan fit their schemas. -/
def Plan.WellSized (plan : Plan) : Prop :=
  ∀ operator ∈ plan.operators, operator.FitsSchema

theorem Plan.WellSized.root {plan : Plan} (h : plan.WellSized) : plan.FitsSchema :=
  h plan (mem_operators_self plan)

theorem Plan.WellSized.input {plan input : Plan} (h : plan.WellSized) (hinput : input ∈ plan.inputs) :
    input.WellSized :=
  fun operator hmem => h operator (mem_operators_of_input hinput hmem)

/-! ### One operator -/

/-- All known keys are within a row of this width. -/
def Derived.Within (d : Derived) (width : Nat) : Prop :=
  ∀ known, d.keys = some known → ∀ key ∈ known, key.Within width

namespace Derived.Within

variable {d l r : Derived} {width width' : Nat}

theorem mono (h : d.Within width) (hle : width ≤ width') : d.Within width' :=
  fun known hknown key hkey => (h known hknown key hkey).mono hle

theorem of_unknown (h : d.keys = none) : d.Within width := by
  intro known hknown
  rw [h] at hknown
  exact absurd hknown (by simp)

theorem of_keys_eq {known : KeySet} (hknown : d.keys = some known)
    (h : ∀ key ∈ known, key.Within width) : d.Within width := by
  intro known' hknown'
  obtain rfl := Option.some.inj (hknown.symm.trans hknown')
  exact h

/-- A projection finds the columns of a key in its output, so there are as many as expressions. -/
theorem project (d : Derived) (columns : List Scalar) : (d.project columns).Within columns.length := by
  intro known hknown out hout
  simp only [Derived.project] at hknown
  split at hknown
  · obtain rfl := Option.some.inj hknown
    exact absurd hout (KeySet.not_mem_empty out)
  · obtain ⟨sources, -, rfl⟩ := Option.map_eq_some_iff.mp hknown
    obtain ⟨key, -, hproject⟩ := KeySet.mem_filterMap.mp hout
    obtain ⟨places, hplaces, rfl⟩ := Option.map_eq_some_iff.mp hproject
    refine .ofList fun place hplace => ?_
    obtain ⟨i, -, hfound⟩ := exists_of_forall₂ (forall₂_of_mapM_eq_some hplaces).flip place hplace
    exact (List.getElem?_eq_some_iff.mp (UniqueKeys.getElem?_of_outputOf? hfound)).1

/-- The joined row holds both rows, and right keys are moved up by the width of the left one. -/
theorem join {leftWidth rightWidth : Nat} (hl : l.Within leftWidth) (hr : r.Within rightWidth)
    (limit : Option Nat) (kind : JoinKind) (condition : Scalar) :
    (Derived.ofKeys (Derived.joinKeys limit leftWidth kind condition l r)).Within
      (leftWidth + rightWidth) := by
  intro known hknown key hkey
  rcases Derived.mem_joinKeys hknown hkey with
    ⟨ls, rs, hls, hrs, lk, hlk, rk, hrk, rfl⟩ | ⟨-, ls, hls, hlk⟩ | ⟨-, rs, hrs, rk, hrk, rfl⟩
  · exact ((hl ls hls lk hlk).mono (Nat.le_add_right _ _)).union ((hr rs hrs rk hrk).shift leftWidth)
  · exact (hl ls hls key hlk).mono (Nat.le_add_right _ _)
  · exact (hr rs hrs rk hrk).shift leftWidth

end Derived.Within

/-! ### Whole plans -/

/-- What is derived for a plan whose schemas fit is within its rows. -/
theorem Plan.WellSized.within_derived {plan : Plan} (h : plan.WellSized) (limit : Option Nat) :
    (plan.derived limit).Within plan.width := by
  induction plan using Plan.induction_on_inputs with
  | step plan ih =>
      have hroot := h.root
      have hinputs : ∀ input ∈ plan.inputs, (input.derived limit).Within input.width :=
        fun input hinput => ih input hinput (h.input hinput)
      cases plan with
      | scan table schema keys =>
          exact .of_keys_eq rfl fun key hkey => hroot key (KeySet.mem_ofList.mp hkey)
      | values schema rows =>
          intro known hknown key hkey
          simp only [derived, Derived.ofKeys] at hknown
          split at hknown
          · obtain rfl := Option.some.inj hknown
            rw [KeySet.mem_singleton.mp hkey]
            exact .empty _
          · exact absurd hknown (by simp)
      | filter input | sort input => exact hinputs input (by simp [inputs])
      | project input columns schema =>
          have hwidth : schema.length = columns.length := hroot
          exact (Derived.Within.project _ columns).mono (Nat.le_of_eq hwidth.symm)
      | aggregate input group aggregates schema =>
          refine .of_keys_eq rfl fun key hkey => ?_
          split at hkey
          · exact absurd hkey (KeySet.not_mem_empty key)
          · rw [KeySet.mem_singleton.mp hkey]
            exact (ColumnSet.Within.range 0 group.size).mono hroot
      | limit | union | extension => exact .of_unknown rfl
      | join left right kind condition schema =>
          have hwidth : schema.length = left.width + right.width := hroot
          have hjoin := (hinputs left (by simp [inputs])).join (hinputs right (by simp [inputs]))
            limit kind condition
          exact hjoin.mono (Nat.le_of_eq hwidth.symm)
      | semiJoin left right condition => exact hinputs left (by simp [inputs])
      | correlate left right kind binding schema =>
          have hwidth : schema.length = left.width + right.width := hroot
          have hleft : (left.derived limit).Within schema.length :=
            (hinputs left (by simp [inputs])).mono (by omega)
          exact hleft

/-- **Derived keys stay inside the row.** On a plan whose schemas fit its operators the request for
unique keys succeeds under any limit and for either treatment of nulls, and all columns of the keys that
it answers with are columns of the plan's rows. -/
theorem Provider.builtin_keys_within {plan : Plan} (h : plan.WellSized) (limit : Option Nat)
    (ignoreNulls : Bool) :
    ∃ keys, ((builtin limit).uniqueKeys plan ignoreNulls).result = .ok keys ∧
      ∀ known, keys = some known → ∀ key ∈ known, ∀ n ∈ key, n < plan.width :=
  ⟨_, result_uniqueKeys_builtin limit plan ignoreNulls, h.within_derived limit⟩

/-- A key of orders with their customers has the customer's own column in it, which is the last of
three. -/
theorem builtin_keys_within_ordersWithCustomers :
    ordersWithCustomers.WellSized ∧
      ∃ known, ((Provider.builtin (some 64)).uniqueKeys ordersWithCustomers false).result
          = .ok (some known) ∧
        .ofList [0, 2] ∈ known ∧ ∀ key ∈ known, ∀ n ∈ key, n < 3 := by
  have hscan : ∀ width, 0 < width → ∀ key ∈ [ColumnSet.singleton 0], key.Within width := by
    intro width hpos key hkey n hn
    rw [List.mem_singleton.mp hkey, ColumnSet.mem_iff_contains, ColumnSet.contains_singleton,
      decide_eq_true_eq] at hn
    omega
  have hsized : ordersWithCustomers.WellSized := by
    have hops : ordersWithCustomers.operators = [ordersWithCustomers, orders, customers] := rfl
    intro operator hmem
    rw [hops] at hmem
    simp only [List.mem_cons, List.not_mem_nil, or_false] at hmem
    rcases hmem with rfl | rfl | rfl
    · exact (rfl : (Schema.anonymous 3).length = 2 + 1)
    · exact hscan _ (by decide)
    · exact hscan _ (by decide)
  obtain ⟨keys, hkeys, hwithin⟩ := Provider.builtin_keys_within hsized (some 64) false
  rw [Provider.result_uniqueKeys_builtin] at hkeys
  obtain rfl := Except.ok.inj hkeys
  refine ⟨hsized, _, Provider.result_uniqueKeys_builtin _ _ _, ?_, hwithin _ rfl⟩
  decide

end QueryAnalysis
