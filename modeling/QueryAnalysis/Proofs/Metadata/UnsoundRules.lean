import QueryAnalysis.Proofs.Metadata.Soundness
import QueryAnalysis.Proofs.Rows.Correlations

/-!
# Full joins and correlations

For two kinds of operators the rules answer with column sets that need not be keys, even if all is
well with the inputs.

* A left key with a right key is given as a key of every join. In a full join an unmatched left row
  and an unmatched right row, each padded with nulls, can agree on it.
* The keys of the left input are given as keys of a correlation. The right input may yield several
  rows for one left row, which is then repeated.

For either one the theorem says of each key in the answer for which rows it is one, and a small plan
shows that these are not all.
-/

namespace QueryAnalysis

variable {α : Type} {db : Database α} {ignoreNulls : Bool}

/-- The unique keys that a provider answers with for a plan are keys of some rows. -/
def Provider.KeysHold (p : Provider) (null : α) (ignoreNulls : Bool) (plan : Plan) (rows : Bag α) :
    Prop :=
  ∀ known, (p.uniqueKeys plan ignoreNulls).result = .ok (some known) →
    ∀ key ∈ known, IsKey null ignoreNulls key rows

/-- What the built-in rules derive decides which keys hold. -/
theorem Provider.builtin_keysHold_iff {null : α} {limit : Option Nat} {plan : Plan} {rows : Bag α} :
    (builtin limit).KeysHold null ignoreNulls plan rows ↔
      ∀ known, (plan.derived limit).keys = some known →
        ∀ key ∈ known, IsKey null ignoreNulls key rows := by
  simp only [KeysHold, result_uniqueKeys_builtin, Except.ok.injEq]

/-- Where keys are sound they hold. -/
theorem Plan.Yields.keysHold {plan : Plan} {rows : Bag α} (h : plan.Yields db rows)
    (limit : Option Nat) (hplan : plan.Keyed db ignoreNulls) :
    (Provider.builtin limit).KeysHold db.null ignoreNulls plan rows :=
  Provider.builtin_keysHold_iff.mpr fun _ => (h.soundFor_derived limit hplan).keys

/-- Rows written in the statement that are known by a key are one row at most. -/
theorem Provider.builtin_keysHold_values {null : α} (limit : Option Nat) {schema : Schema}
    {written : List (List Literal)} {rows : Bag α} (hrows : rows.length ≤ written.length) :
    (builtin limit).KeysHold null ignoreNulls (.values schema written) rows := by
  refine builtin_keysHold_iff.mpr fun known hknown key _ => IsKey.of_length_le_one ?_
  have hfew : (if written.length ≤ 1 then some (KeySet.singleton .empty) else none) = some known :=
    hknown
  split at hfew
  · next hle => exact Nat.le_trans hrows hle
  · exact absurd hfew (by simp)

/-! ### Full joins -/

/-- **The keys of a full join.** The request succeeds. A key in the answer is a key of the join's rows
just if, in every unmatched left row with every unmatched right row, it finds a value other than
null, or any value if nulls are ignored. -/
theorem Provider.builtin_fullJoin_iff (limit : Option Nat) {left right : Plan} {condition : Scalar}
    (schema : Schema) {ls rs out : Bag α} (hls : Bag.Fits left.schema ls)
    (hrs : Bag.Fits right.schema rs) (hleft : (builtin limit).KeysHold db.null ignoreNulls left ls)
    (hright : (builtin limit).KeysHold db.null ignoreNulls right rs)
    (hout : out.Perm (db.joinRows .full condition left.width right.width ls rs)) :
    ∃ keys, ((builtin limit).uniqueKeys (.join left right .full condition schema) ignoreNulls).result
        = .ok keys ∧
      ∀ known, keys = some known → ∀ key ∈ known,
        (IsKey db.null ignoreNulls key out ↔
          ∀ l ∈ ls, ∀ r ∈ rs, (∀ r' ∈ rs, db.isTrue condition (l ++ r') = false) →
            (∀ l' ∈ ls, db.isTrue condition (l' ++ r) = false) →
              ∃ i ∈ key, ∃ v, (l ++ r)[i]? = some v ∧ (v ≠ db.null ∨ ignoreNulls = true)) := by
  refine ⟨_, result_uniqueKeys_builtin limit _ ignoreNulls, ?_⟩
  intro known hknown key hkey
  rcases Derived.mem_joinKeys hknown hkey with
    ⟨lks, rks, hlks, hrks, lk, hlk, rk, hrk, rfl⟩ | ⟨⟨-, hpad⟩, -⟩ | ⟨⟨-, hpad⟩, -⟩
  · have hlk := builtin_keysHold_iff.mp hleft lks hlks lk hlk
    have hrk := builtin_keysHold_iff.mp hright rks hrks rk hrk
    exact (IsKey.perm_iff hout).trans (Database.isKey_joinRows_full_iff hls hrs hlk hrk)
  -- No side of a full join keeps its own keys.
  · exact absurd hpad (by decide)
  · exact absurd hpad (by decide)

/-- Every order and every customer, together where they belong together. -/
def ordersAndCustomers : Plan :=
  .join orders customers .full (.binary (.column 1) .eq (.column 2)) (.anonymous 3)

/-- The order that names no customer has a number, and so does the customer without an order. -/
theorem builtin_fullJoin_iff_ordersAndCustomers :
    ((Provider.builtin (some 64)).uniqueKeys ordersAndCustomers false).result
        = .ok (some (.singleton (.ofList [0, 2]))) ∧
      IsKey shop.null false (.ofList [0, 2])
        [[.int 1, .int 7, .int 7], [.int 2, .int 9, .null], [.null, .null, .int 8]] := by
  have horders : orders.Yields shop (shop.table "orders") := .scan (by decide)
  have hcustomers : customers.Yields shop (shop.table "customers") := .scan (by decide)
  have hkeyed : ∀ input ∈ [orders, customers], input.Keyed shop false :=
    fun _ hinput => ordersWithCustomers_keyed.input hinput
  have hout : List.Perm [[.int 1, .int 7, .int 7], [.int 2, .int 9, .null], [.null, .null, .int 8]]
      (shop.joinRows .full (.binary (.column 1) .eq (.column 2)) orders.width customers.width
        (shop.table "orders") (shop.table "customers")) := .of_eq (by decide)
  obtain ⟨keys, hkeys, hiff⟩ :=
    Provider.builtin_fullJoin_iff (some 64) (.anonymous 3) horders.fits hcustomers.fits
      (horders.keysHold (some 64) (hkeyed orders (by simp)))
      (hcustomers.keysHold (some 64) (hkeyed customers (by simp))) hout
  have hresult : ((Provider.builtin (some 64)).uniqueKeys ordersAndCustomers false).result
      = .ok (some (.singleton (.ofList [0, 2]))) := by
    rw [Provider.result_uniqueKeys_builtin]
    decide
  refine ⟨hresult, (hiff _ (Except.ok.inj (hkeys.symm.trans hresult)) _
    (KeySet.mem_singleton.mpr rfl)).mpr ?_⟩
  intro l hl r hr _ _
  refine ⟨0, by decide, ?_⟩
  simp only [shop, Database.ofTables, List.mem_cons, List.not_mem_nil, or_false] at hl
  rcases hl with rfl | rfl
  · exact ⟨.int 1, rfl, .inl (by decide)⟩
  · exact ⟨.int 2, rfl, .inl (by decide)⟩

/-- One row with one number. -/
def oneNumber (n : Int64) : Plan :=
  .values (.anonymous 1) [[.int n]]

/-- Two single rows that do not match. -/
def oneAndTwo : Plan :=
  .join (oneNumber 1) (oneNumber 2) .full (.binary (.column 0) .eq (.column 1)) (.anonymous 2)

/-- Either row is known by no column at all, and that is the key that the join is given. But both
come out unmatched. -/
theorem not_keysHold_oneAndTwo :
    (Provider.builtin (some 64)).KeysHold shop.null false (oneNumber 1) [[.int 1]] ∧
      (Provider.builtin (some 64)).KeysHold shop.null false (oneNumber 2) [[.int 2]] ∧
      oneAndTwo.Yields shop [[.int 1, .null], [.null, .int 2]] ∧
      ¬ (Provider.builtin (some 64)).KeysHold shop.null false oneAndTwo
        [[.int 1, .null], [.null, .int 2]] := by
  refine ⟨Provider.builtin_keysHold_values _ (by decide),
    Provider.builtin_keysHold_values _ (by decide),
    .join (.values (by decide)) (.values (by decide)) (.of_eq (by decide)) (by decide), ?_⟩
  intro hhold
  have hkey : IsKey shop.null false .empty [[.int 1, .null], [.null, .int 2]] :=
    Provider.builtin_keysHold_iff.mp hhold (.singleton .empty) (by decide) .empty
      (KeySet.mem_singleton.mpr rfl)
  exact absurd (IsKey.empty_iff.mp hkey) (by decide)

/-! ### Correlations -/

/-- **The keys of a correlation.** The request succeeds, with the keys of the left input. Each of
them is a key of the correlation's rows just if it is one of each left row's own output; for a key of
left columns that means one row of the right input at most, or a null in the key that is ignored. -/
theorem Provider.builtin_correlate_iff (limit : Option Nat) {left : Plan} (right : Plan)
    (kind : JoinKind) (binding : Nat) (schema : Schema) {answered : List (Row α × Bag α)}
    {out : Bag α} (hls : Bag.Fits left.schema (answered.map Prod.fst))
    (hleft : (builtin limit).KeysHold db.null ignoreNulls left (answered.map Prod.fst))
    (hout : out.Perm (db.correlateRows kind right.width answered)) :
    ∃ keys, ((builtin limit).uniqueKeys (.correlate left right kind binding schema)
        ignoreNulls).result = .ok keys ∧
      ((builtin limit).uniqueKeys left ignoreNulls).result = .ok keys ∧
      ∀ known, keys = some known → ∀ key ∈ known,
        (IsKey db.null ignoreNulls key out ↔ ∀ pair ∈ answered,
          IsKey db.null ignoreNulls key (db.extend kind right.width pair.1 pair.2)) ∧
        ((∀ i ∈ key, i < left.width) →
          (IsKey db.null ignoreNulls key out ↔ ∀ pair ∈ answered,
            pair.2.length ≤ 1 ∨ (ignoreNulls = true ∧ Row.NullIn db.null key pair.1))) := by
  refine ⟨(left.derived limit).keys, result_uniqueKeys_builtin limit _ ignoreNulls,
    result_uniqueKeys_builtin limit left ignoreNulls, ?_⟩
  intro known hknown key hkey
  have hlk := builtin_keysHold_iff.mp hleft known hknown key hkey
  have hiff : IsKey db.null ignoreNulls key out ↔ ∀ pair ∈ answered,
      IsKey db.null ignoreNulls key (db.extend kind right.width pair.1 pair.2) :=
    (IsKey.perm_iff hout).trans (Database.isKey_correlateRows_iff hls hlk fun _ hi => hi)
  refine ⟨hiff, ?_⟩
  intro hcolumns
  rw [hiff]
  refine forall₂_congr fun pair hpair => Database.isKey_extend_iff ?_
  rw [hls pair.1 (List.mem_map_of_mem hpair)]
  exact hcolumns

/-- Every customer with the orders of that customer, if there are any. -/
def customersWithOrders : Plan :=
  .correlate customers orders .left 0 (.anonymous 3)

/-- No customer has two orders. -/
theorem builtin_correlate_iff_customersWithOrders :
    ((Provider.builtin (some 64)).uniqueKeys customersWithOrders false).result
        = .ok (some (.singleton (.singleton 0))) ∧
      IsKey shop.null false (.singleton 0)
        [[.int 7, .int 1, .int 7], [.int 8, .null, .null]] := by
  have hcustomers : customers.Yields shop (shop.table "customers") := .scan (by decide)
  have hkeyed : customers.Keyed shop false :=
    ordersWithCustomers_keyed.input (by simp [Plan.inputs, ordersWithCustomers])
  have hout : List.Perm [[.int 7, .int 1, .int 7], [.int 8, .null, .null]]
      (shop.correlateRows .left orders.width
        [([.int 7], [[.int 1, .int 7]]), ([.int 8], [])]) := .of_eq (by decide)
  obtain ⟨keys, hkeys, -, hiff⟩ :=
    Provider.builtin_correlate_iff (some 64) orders .left 0 (.anonymous 3) hcustomers.fits
      (hcustomers.keysHold (some 64) hkeyed) hout
  have hresult : ((Provider.builtin (some 64)).uniqueKeys customersWithOrders false).result
      = .ok (some (.singleton (.singleton 0))) := by
    rw [Provider.result_uniqueKeys_builtin]
    decide
  refine ⟨hresult, ((hiff _ (Except.ok.inj (hkeys.symm.trans hresult)) _
    (KeySet.mem_singleton.mpr rfl)).2 ?_).mpr ?_⟩
  · intro i hi
    simp [ColumnSet.mem_iff_contains] at hi
    subst hi
    decide
  · simp

/-- One row with the two rows that the right input yields for it. -/
def oneTwice : Plan :=
  .correlate (oneNumber 1) (.values (.anonymous 1) [[.int 10], [.int 20]]) .inner 0 (.anonymous 2)

/-- The left row is known by no column at all, and comes out twice. -/
theorem not_keysHold_oneTwice :
    (Provider.builtin (some 64)).KeysHold shop.null false (oneNumber 1) [[.int 1]] ∧
      oneTwice.Yields shop [[.int 1, .int 10], [.int 1, .int 20]] ∧
      ¬ (Provider.builtin (some 64)).KeysHold shop.null false oneTwice
        [[.int 1, .int 10], [.int 1, .int 20]] := by
  have hout : List.Perm [[.int 1, .int 10], [.int 1, .int 20]]
      ([[.int 1]].flatMap fun l => shop.extend .inner 1 l [[.int 10], [.int 20]]) :=
    .of_eq (by decide)
  refine ⟨Provider.builtin_keysHold_values _ (by decide),
    .correlate rfl (.values (by decide)) hout (by decide), ?_⟩
  intro hhold
  have hkey : IsKey shop.null false .empty [[.int 1, .int 10], [.int 1, .int 20]] :=
    Provider.builtin_keysHold_iff.mp hhold (.singleton .empty) (by decide) .empty
      (KeySet.mem_singleton.mpr rfl)
  exact absurd (IsKey.empty_iff.mp hkey) (by decide)

end QueryAnalysis
