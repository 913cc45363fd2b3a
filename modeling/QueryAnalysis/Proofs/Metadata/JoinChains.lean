import QueryAnalysis.Proofs.Metadata.Limits

/-!
# Keys along chains of joins

A join over a foreign key keeps the keys of the side that refers: each of its rows meets at most one
row of the other side, whose key the condition equates. So do chains of such joins, however long. In a
left-deep chain the referring side is the first input and stays in place, and in a right-deep one it is
the last and moves up by the width of every left input.

What a join keeps of one side depends on the limit as little as on what it adds: the keys of both sides
together, which may be left out, only come on top (`Provider.KnowsKey.join_left`,
`Provider.KnowsKey.join_right`).
-/

namespace QueryAnalysis

/-- The width of rows of these plans side by side. -/
def Plan.totalWidth : List Plan → Nat
  | [] => 0
  | plan :: plans => plan.width + totalWidth plans

namespace Provider

/-! ### Known keys -/

/-- The provider answers with some keys, and the given one is among them. -/
def KnowsKey (p : Provider) (ignoreNulls : Bool) (plan : Plan) (key : ColumnSet) : Prop :=
  ∃ known, (p.uniqueKeys plan ignoreNulls).result = .ok (some known) ∧ key ∈ known

/-- The provider knows a key that lies within some columns. -/
def KnowsKeyWithin (p : Provider) (ignoreNulls : Bool) (plan : Plan) (columns : ColumnSet) : Prop :=
  ∃ key, p.KnowsKey ignoreNulls plan key ∧ key ⊆ columns

variable {limit : Option Nat} {ignoreNulls : Bool} {plan left right : Plan} {kind : JoinKind}
  {condition : Scalar} {schema : Schema} {key columns : ColumnSet}

theorem knowsKey_builtin :
    (builtin limit).KnowsKey ignoreNulls plan key ↔
      ∃ known, (plan.derived limit).keys = some known ∧ key ∈ known := by
  simp only [KnowsKey, result_uniqueKeys_builtin, Except.ok.injEq]

theorem KnowsKeyWithin.uniqueOn (h : (builtin limit).KnowsKeyWithin ignoreNulls plan columns) :
    (plan.derived limit).uniqueOn columns = some true := by
  obtain ⟨key, hknows, hsub⟩ := h
  obtain ⟨known, hknown, hkey⟩ := knowsKey_builtin.mp hknows
  rw [Plan.uniqueOn_derived, hknown, Option.map_some,
    KeySet.covers_eq_true_iff.mpr ⟨key, hkey, ColumnSet.isSubset_iff.mpr hsub⟩]

/-! ### One join -/

/-- A left key stays a key of the join if the right columns that the condition equates have one. -/
theorem KnowsKey.join_left (hkey : (builtin limit).KnowsKey ignoreNulls left key)
    (hpad : kind.padsLeft = false)
    (hright : (builtin limit).KnowsKeyWithin ignoreNulls right
      (equiJoinColumns left.width condition).2) :
    (builtin limit).KnowsKey ignoreNulls (.join left right kind condition schema) key := by
  obtain ⟨known, hknown, hmem⟩ := knowsKey_builtin.mp hkey
  refine knowsKey_builtin.mpr ⟨_, if_neg ?_, ?_⟩
  · simp [hknown]
  · rw [hknown]
    exact UniqueKeys.left_mem_joinedKeys hmem hright.uniqueOn hpad

/-- A right key stays one, in terms of the joined row, if the left columns that the condition equates
have one. -/
theorem KnowsKey.join_right (hkey : (builtin limit).KnowsKey ignoreNulls right key)
    (hpad : kind.padsRight = false)
    (hleft : (builtin limit).KnowsKeyWithin ignoreNulls left
      (equiJoinColumns left.width condition).1) :
    (builtin limit).KnowsKey ignoreNulls (.join left right kind condition schema)
      (key.shift left.width) := by
  obtain ⟨known, hknown, hmem⟩ := knowsKey_builtin.mp hkey
  have hshifted : key.shift left.width ∈ known.map fun k => k.shift left.width :=
    KeySet.mem_map.mpr ⟨key, hmem, rfl⟩
  refine knowsKey_builtin.mpr ⟨_, if_neg ?_, ?_⟩
  · simp [hknown]
  · rw [hknown, Option.map_some]
    exact UniqueKeys.right_mem_joinedKeys hshifted hleft.uniqueOn hpad

/-! ### Chains -/

/-- The plans that join further inputs to `first` on the right, one after the other. Each of them has a
known key within the columns that are equated with the chain so far. -/
inductive LeftDeep (p : Provider) (ignoreNulls : Bool) (first : Plan) : Plan → Prop
  | start : LeftDeep p ignoreNulls first first
  | join {chain next : Plan} {kind : JoinKind} {condition : Scalar} {schema : Schema}
      (before : LeftDeep p ignoreNulls first chain) (kept : kind = .inner ∨ kind = .left)
      (key : p.KnowsKeyWithin ignoreNulls next (equiJoinColumns chain.width condition).2) :
      LeftDeep p ignoreNulls first (.join chain next kind condition schema)

/-- The plans that join further inputs to `last` on the left, with the list of these inputs, the
outermost first. Each of them has a known key within the columns that are equated with the chain so
far. -/
inductive RightDeep (p : Provider) (ignoreNulls : Bool) (last : Plan) : List Plan → Plan → Prop
  | start : RightDeep p ignoreNulls last [] last
  | join {lefts : List Plan} {next chain : Plan} {kind : JoinKind} {condition : Scalar}
      {schema : Schema} (before : RightDeep p ignoreNulls last lefts chain)
      (kept : kind = .inner ∨ kind = .right)
      (key : p.KnowsKeyWithin ignoreNulls next (equiJoinColumns next.width condition).1) :
      RightDeep p ignoreNulls last (next :: lefts) (.join next chain kind condition schema)

theorem LeftDeep.knowsKey {first chain : Plan} (h : (builtin limit).LeftDeep ignoreNulls first chain)
    (hkey : (builtin limit).KnowsKey ignoreNulls first key) :
    (builtin limit).KnowsKey ignoreNulls chain key := by
  induction h with
  | start => exact hkey
  | join _ hkept hnext ih =>
      refine ih.join_left ?_ hnext
      rcases hkept with rfl | rfl <;> rfl

theorem RightDeep.knowsKey {last chain : Plan} {lefts : List Plan}
    (h : (builtin limit).RightDeep ignoreNulls last lefts chain)
    (hkey : (builtin limit).KnowsKey ignoreNulls last key) :
    (builtin limit).KnowsKey ignoreNulls chain (key.shift (Plan.totalWidth lefts)) := by
  induction h with
  | start => rwa [Plan.totalWidth, ColumnSet.shift_zero]
  | join _ hkept hnext ih =>
      rw [Plan.totalWidth, Nat.add_comm, ← ColumnSet.shift_shift]
      refine ih.join_right ?_ hnext
      rcases hkept with rfl | rfl <;> rfl

/-- **Keys survive chains of joins over foreign keys**, of any length, under any limit. The known keys
of the first input are known of a left-deep chain of inner and left joins, and those of the last input
are known of a right-deep chain of inner and right joins, moved up by the widths of the left inputs. -/
theorem keys_survive_join_chains (limit : Option Nat) (ignoreNulls : Bool) :
    (∀ first chain, (builtin limit).LeftDeep ignoreNulls first chain →
      ∀ key, (builtin limit).KnowsKey ignoreNulls first key →
        (builtin limit).KnowsKey ignoreNulls chain key) ∧
    ∀ last lefts chain, (builtin limit).RightDeep ignoreNulls last lefts chain →
      ∀ key, (builtin limit).KnowsKey ignoreNulls last key →
        (builtin limit).KnowsKey ignoreNulls chain (key.shift (Plan.totalWidth lefts)) :=
  ⟨fun _ _ hchain _ => hchain.knowsKey, fun _ _ _ hchain _ => hchain.knowsKey⟩

end Provider

/-! ### Orders with their customers, twice -/

/-- The orders that have a customer, with that customer twice. -/
def ordersWithCustomersTwice : Plan :=
  .join ordersWithCustomers customers .inner (.binary (.column 3) .eq (.column 1)) (.anonymous 4)

/-- The same rows with the orders last. -/
def customersTwiceWithOrders : Plan :=
  .join customers
    (.join customers orders .right (.binary (.column 0) .eq (.column 2)) (.anonymous 3))
    .inner (.binary (.column 0) .eq (.column 3)) (.anonymous 4)

/-- Both keep the order number as a key, which is the first column of one and the third of the other,
although the second join has too many pairs of keys for the limit. -/
theorem keys_survive_join_chains_ordersWithCustomersTwice :
    (Provider.builtin (some 1)).KnowsKey false ordersWithCustomersTwice (.singleton 0) ∧
      (Provider.builtin (some 1)).KnowsKey false customersTwiceWithOrders (.singleton 2) := by
  have horders : (Provider.builtin (some 1)).KnowsKey false orders (.singleton 0) :=
    Provider.knowsKey_builtin.mpr ⟨_, rfl, by decide⟩
  have hcustomers : ∀ columns : ColumnSet, (ColumnSet.singleton 0).isSubset columns = true →
      (Provider.builtin (some 1)).KnowsKeyWithin false customers columns :=
    fun columns hsub => ⟨.singleton 0, Provider.knowsKey_builtin.mpr ⟨_, rfl, by decide⟩,
      ColumnSet.isSubset_iff.mp hsub⟩
  obtain ⟨hleft, hright⟩ := Provider.keys_survive_join_chains (some 1) false
  constructor
  · refine hleft orders _ ?_ _ horders
    exact .join (.join .start (.inr rfl) (hcustomers _ (by decide))) (.inl rfl)
      (hcustomers _ (by decide))
  · refine hright orders [customers, customers] _ ?_ _ horders
    exact .join (.join .start (.inr rfl) (hcustomers _ (by decide))) (.inl rfl)
      (hcustomers _ (by decide))

end QueryAnalysis
