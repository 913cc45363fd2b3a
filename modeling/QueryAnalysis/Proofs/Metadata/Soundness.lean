import QueryAnalysis.Proofs.Lists
import QueryAnalysis.Proofs.Metadata.Derivation
import QueryAnalysis.Proofs.Rows.Joins

/-!
# Derived keys are keys

What the built-in rules answer holds of the rows: a derived key is a key of every bag that the plan
yields, and columns that are said to be unique are one. It holds over every database in which the
keys that scans declare are keys of their tables, and for either treatment of nulls, as long as it
is the same one in the database and in the request.

The induction is over the derivation of the rows. At each operator `Derived.SoundFor` of the inputs
gives `Derived.SoundFor` of the output, by the facts about keys of the operator's rows. Two kinds of
operators are left out, correlations and full joins.
-/

namespace QueryAnalysis

variable {α : Type}

/-! ### What the rules make of key sets -/

namespace UniqueKeys

/-- The columns that a projection passes on, with their places. -/
theorem mem_passedColumns {columns : List Scalar} {i j : Nat} :
    (i, j) ∈ passedColumns columns ↔ columns[j]? = some (.column i) := by
  simp only [passedColumns, List.mem_filterMap]
  constructor
  · rintro ⟨⟨expr, out⟩, hexpr, hpassed⟩
    have hget : columns[out]? = some expr := by simpa using List.mem_zipIdx_iff_getElem?.mp hexpr
    split at hpassed
    · next heq =>
        obtain ⟨rfl, rfl⟩ := Prod.mk.inj heq
        obtain ⟨rfl, rfl⟩ := Prod.mk.inj (Option.some.inj hpassed)
        exact hget
    · exact absurd hpassed (by simp)
  · intro hget
    exact ⟨(.column i, j), List.mem_zipIdx_iff_getElem?.mpr (by simpa using hget), rfl⟩

/-- A projection passes a column on to the place where it is found. -/
theorem getElem?_of_outputOf? {columns : List Scalar} {i j : Nat}
    (h : outputOf? columns i = some j) : columns[j]? = some (.column i) := by
  -- The look-up finds the last place to which the column is passed on.
  obtain ⟨before, after, hsplit, -⟩ := List.lookup_eq_some_iff.mp h
  refine mem_passedColumns.mp (List.mem_reverse.mp ?_)
  rw [hsplit]
  simp

/-- A column that is passed on is found somewhere. -/
theorem exists_outputOf? {columns : List Scalar} {i j : Nat}
    (h : columns[j]? = some (.column i)) : ∃ out, outputOf? columns i = some out := by
  refine Option.ne_none_iff_exists'.mp ?_
  intro hnone
  have hmissing := List.lookup_eq_none_iff.mp hnone (i, j)
    (List.mem_reverse.mpr (mem_passedColumns.mpr h))
  simp at hmissing

/-- A projected key consists of the places to which the columns of the key are passed on. -/
theorem passed_of_projectKey? {columns : List Scalar} {key out : ColumnSet}
    (h : projectKey? columns key = some out) :
    ∀ i ∈ key, ∃ j ∈ out, columns[j]? = some (.column i) := by
  obtain ⟨places, hplaces, rfl⟩ := Option.map_eq_some_iff.mp h
  intro i hi
  obtain ⟨j, hj, hout⟩ :=
    exists_of_forall₂ (forall₂_of_mapM_eq_some hplaces) i (ColumnSet.mem_toList.mpr hi)
  exact ⟨j, by simpa [ColumnSet.mem_iff_contains] using hj, getElem?_of_outputOf? hout⟩

theorem mem_combinedKeys {left right : KeySet} {key : ColumnSet} :
    key ∈ combinedKeys left right ↔ ∃ l ∈ left, ∃ r ∈ right, key = l.union r := by
  simp only [combinedKeys, KeySet.mem_ofList, List.mem_flatMap, List.mem_map]
  constructor
  · rintro ⟨r, hr, l, hl, rfl⟩
    exact ⟨l, hl, r, hr, rfl⟩
  · rintro ⟨l, hl, r, hr, rfl⟩
    exact ⟨r, hr, l, hl, rfl⟩

/-- A key that a side keeps on some condition. -/
theorem mem_or_of_mem_kept {kept : Prop} [Decidable kept] {s : KeySet} {side : Option KeySet}
    {key : ColumnSet} (h : key ∈ if kept then s.union (side.getD .empty) else s) :
    key ∈ s ∨ (kept ∧ ∃ keys, side = some keys ∧ key ∈ keys) := by
  split at h
  · next hkept =>
      rcases KeySet.mem_union.mp h with h | h
      · exact .inl h
      · cases side with
        | none => exact absurd h (KeySet.not_mem_empty key)
        | some keys => exact .inr ⟨hkept, keys, rfl, h⟩
  · exact .inl h

/-- Where the keys of a join come from: both sides, the left one alone or the right one alone. -/
theorem mem_joinedKeys {limit : Option Nat} {kind : JoinKind} {left right : Option KeySet}
    {leftUnique rightUnique : Option Bool} {key : ColumnSet}
    (h : key ∈ joinedKeys limit kind left right leftUnique rightUnique) :
    (∃ ls rs, left = some ls ∧ right = some rs ∧ ∃ l ∈ ls, ∃ r ∈ rs, key = l.union r) ∨
      ((rightUnique = some true ∧ kind.padsLeft = false) ∧ ∃ ls, left = some ls ∧ key ∈ ls) ∨
      ((leftUnique = some true ∧ kind.padsRight = false) ∧ ∃ rs, right = some rs ∧ key ∈ rs) := by
  -- The rule adds the surviving keys of each side to the combined ones, the right side's last.
  rcases mem_or_of_mem_kept h with h | h
  · rcases mem_or_of_mem_kept h with h | h
    · left
      cases left with
      | none => exact absurd h (KeySet.not_mem_empty key)
      | some ls =>
          cases right with
          | none => exact absurd h (KeySet.not_mem_empty key)
          | some rs =>
              simp only at h
              split at h
              · exact ⟨ls, rs, rfl, rfl, mem_combinedKeys.mp h⟩
              · exact absurd h (KeySet.not_mem_empty key)
    · exact .inr (.inl h)
  · exact .inr (.inr h)

end UniqueKeys

/-- The same of what is known of a join. Right keys are known in terms of the right row, and the join
counts its columns after the left ones. -/
theorem Derived.mem_joinKeys {limit : Option Nat} {leftWidth : Nat} {kind : JoinKind}
    {condition : Scalar} {l r : Derived} {known : KeySet} {key : ColumnSet}
    (hknown : joinKeys limit leftWidth kind condition l r = some known) (hkey : key ∈ known) :
    (∃ ls rs, l.keys = some ls ∧ r.keys = some rs ∧
        ∃ lk ∈ ls, ∃ rk ∈ rs, key = lk.union (rk.shift leftWidth)) ∨
      ((r.uniqueOn (equiJoinColumns leftWidth condition).2 = some true ∧ kind.padsLeft = false) ∧
        ∃ ls, l.keys = some ls ∧ key ∈ ls) ∨
      ((l.uniqueOn (equiJoinColumns leftWidth condition).1 = some true ∧ kind.padsRight = false) ∧
        ∃ rs, r.keys = some rs ∧ ∃ rk ∈ rs, key = rk.shift leftWidth) := by
  have hshifted : ∀ {shifted rk},
      (r.keys.map fun keys => keys.map fun k => k.shift leftWidth) = some shifted → rk ∈ shifted →
        ∃ rs, r.keys = some rs ∧ ∃ k ∈ rs, rk = k.shift leftWidth := by
    intro shifted rk hshifted hrk
    obtain ⟨rs, hrs, rfl⟩ := Option.map_eq_some_iff.mp hshifted
    obtain ⟨k, hk, rfl⟩ := KeySet.mem_map.mp hrk
    exact ⟨rs, hrs, k, hk, rfl⟩
  unfold joinKeys at hknown
  split at hknown
  · exact absurd hknown (by simp)
  · obtain rfl := Option.some.inj hknown
    rcases UniqueKeys.mem_joinedKeys hkey with
      ⟨ls, shifted, hls, hright, lk, hlk, rk, hrk, rfl⟩ | hkept | ⟨hunique, shifted, hright, hrk⟩
    · obtain ⟨rs, hrs, k, hk, rfl⟩ := hshifted hright hrk
      exact .inl ⟨ls, rs, hls, hrs, lk, hlk, k, hk, rfl⟩
    · exact .inr (.inl hkept)
    · exact .inr (.inr ⟨hunique, hshifted hright hrk⟩)

/-- The sources of output columns are passed on to them. -/
theorem ColumnUniqueness.passed_of_sourceColumns {exprs : List Scalar} {columns : ColumnSet} :
    ∀ i ∈ sourceColumns exprs columns, ∃ j ∈ columns, exprs[j]? = some (.column i) := by
  intro i hi
  simp only [sourceColumns, ColumnSet.mem_iff_contains, ColumnSet.contains_ofList,
    decide_eq_true_eq, List.mem_filterMap] at hi
  obtain ⟨j, hj, hsource⟩ := hi
  split at hsource
  · next hexpr =>
      obtain rfl := Option.some.inj hsource
      exact ⟨j, ColumnSet.mem_toList.mp hj, hexpr⟩
  · exact absurd hsource (by simp)

/-! ### Soundness at one operator -/

/-- What is known of an operator holds of some rows. -/
structure Derived.SoundFor (null : α) (ignoreNulls : Bool) (d : Derived) (rows : Bag α) : Prop where
  keys : ∀ {known}, d.keys = some known → ∀ key ∈ known, IsKey null ignoreNulls key rows
  unique : ∀ {columns}, d.unique columns = some true → IsKey null ignoreNulls columns rows

namespace Derived.SoundFor

variable {null : α} {ignoreNulls : Bool} {rows out : Bag α} {d : Derived}

/-- Sound keys suffice where uniqueness follows from keys. -/
theorem ofKeys {keys : Option KeySet}
    (h : ∀ {known}, keys = some known → ∀ key ∈ known, IsKey null ignoreNulls key rows) :
    (Derived.ofKeys keys).SoundFor null ignoreNulls rows := by
  refine ⟨h, ?_⟩
  intro columns hunique
  obtain ⟨known, hknown, hcovers⟩ := Option.map_eq_some_iff.mp hunique
  obtain ⟨key, hmem, hsub⟩ := KeySet.covers_eq_true_iff.mp hcovers
  exact (h hknown key hmem).mono (ColumnSet.isSubset_iff.mp hsub)

theorem uniqueOn (h : d.SoundFor null ignoreNulls rows) {columns : ColumnSet}
    (hunique : d.uniqueOn columns = some true) : IsKey null ignoreNulls columns rows := by
  unfold Derived.uniqueOn at hunique
  split at hunique
  · next known hknown =>
      have hcovers : known.covers columns = true := Option.some.inj hunique
      obtain ⟨key, hmem, hsub⟩ := KeySet.covers_eq_true_iff.mp hcovers
      exact (h.keys hknown key hmem).mono (ColumnSet.isSubset_iff.mp hsub)
  · exact h.unique hunique

/-- What holds of some rows holds of some of them, in any order. -/
theorem subperm (h : d.SoundFor null ignoreNulls rows) (hsub : out.Subperm rows) :
    d.SoundFor null ignoreNulls out :=
  ⟨fun hknown key hkey => (h.keys hknown key hkey).subperm hsub,
    fun hunique => (h.unique hunique).subperm hsub⟩

theorem project {columns : List Scalar} (h : d.SoundFor null ignoreNulls rows)
    (hout : List.Forall₂ (Row.ProjectsTo columns) rows out) :
    (Derived.project columns d).SoundFor null ignoreNulls out := by
  constructor
  · intro known hknown key hkey
    unfold Derived.project at hknown
    simp only at hknown
    split at hknown
    · obtain rfl := Option.some.inj hknown
      exact absurd hkey (KeySet.not_mem_empty key)
    · obtain ⟨sources, hsources, rfl⟩ := Option.map_eq_some_iff.mp hknown
      obtain ⟨source, hsource, hproject⟩ := KeySet.mem_filterMap.mp hkey
      exact (h.keys hsources source hsource).project
        (UniqueKeys.passed_of_projectKey? hproject) hout
  · intro wanted hunique
    exact (h.unique hunique).project ColumnUniqueness.passed_of_sourceColumns hout

theorem join {db : Database α} {l r : Derived} {left right : Bag α} {leftWidth rightWidth : Nat}
    {kind : JoinKind} {condition : Scalar} {limit : Option Nat} (hkind : kind ≠ .full)
    (hl : l.SoundFor db.null ignoreNulls left) (hr : r.SoundFor db.null ignoreNulls right)
    (hwidth : ∀ row ∈ left, row.length = leftWidth)
    (hout : out.Perm (db.joinRows kind condition leftWidth rightWidth left right)) :
    (Derived.ofKeys (Derived.joinKeys limit leftWidth kind condition l r)).SoundFor
      db.null ignoreNulls out := by
  refine ofKeys fun {known} hknown key hkey => IsKey.perm ?_ hout
  rcases Derived.mem_joinKeys hknown hkey with
    ⟨ls, rs, hls, hrs, lk, hlk, rk, hrk, rfl⟩ | ⟨⟨hunique, hpad⟩, ls, hls, hlk⟩ |
      ⟨⟨hunique, hpad⟩, rs, hrs, rk, hrk, rfl⟩
  · exact Database.isKey_joinRows_both hwidth hkind (hl.keys hls lk hlk) (hr.keys hrs rk hrk)
  · exact Database.isKey_joinRows_left hwidth hpad (hl.keys hls key hlk) (hr.uniqueOn hunique)
  · exact Database.isKey_joinRows_right hwidth hpad (hr.keys hrs rk hrk) (hl.uniqueOn hunique)

end Derived.SoundFor

/-! ### Soundness over a plan -/

/-- The plans and databases that the soundness of keys is about. -/
structure Plan.Keyed (db : Database α) (ignoreNulls : Bool) (plan : Plan) : Prop where
  noCorrelate : ∀ operator ∈ plan.operators, operator.kind ≠ .correlate
  noFullJoin : ∀ left right condition schema,
    .join left right .full condition schema ∉ plan.operators
  /-- The keys that a scan declares are keys of its table. -/
  declared : ∀ table schema keys, .scan table schema keys ∈ plan.operators →
    ∀ key ∈ keys, IsKey db.null ignoreNulls key (db.table table)

theorem Plan.Keyed.input {db : Database α} {ignoreNulls : Bool} {plan input : Plan}
    (h : plan.Keyed db ignoreNulls) (hinput : input ∈ plan.inputs) : input.Keyed db ignoreNulls where
  noCorrelate operator hmem := h.noCorrelate operator (mem_operators_of_input hinput hmem)
  noFullJoin left right condition schema hmem :=
    h.noFullJoin left right condition schema (mem_operators_of_input hinput hmem)
  declared table schema keys hmem :=
    h.declared table schema keys (mem_operators_of_input hinput hmem)

/-- **What is derived for a plan holds of its rows.** The induction is over how the plan yields
them. -/
theorem Plan.Yields.soundFor_derived {db : Database α} {ignoreNulls : Bool} {plan : Plan}
    {rows : Bag α} (h : plan.Yields db rows) (limit : Option Nat) (hplan : plan.Keyed db ignoreNulls) :
    (plan.derived limit).SoundFor db.null ignoreNulls rows := by
  induction h with
  | @scan table schema keys _ =>
      refine .ofKeys ?_
      intro known hknown key hkey
      obtain rfl := Option.some.inj hknown
      exact hplan.declared table schema keys (mem_operators_self _) key (KeySet.mem_ofList.mp hkey)
  | @values schema rows _ =>
      refine .ofKeys ?_
      intro known hknown key _
      split at hknown
      · next hfew => exact IsKey.of_length_le_one (by simpa using hfew)
      · exact absurd hknown (by simp)
  | filter _ hsub ih => exact (ih (hplan.input (by simp [inputs]))).subperm hsub
  | project _ hout _ ih => exact (ih (hplan.input (by simp [inputs]))).project hout
  | aggregate hgroup _ hout _ _ =>
      -- Over a group set that is not empty the one key is made of the leading columns.
      refine .ofKeys ?_
      intro known hknown key hkey
      obtain rfl := Option.some.inj hknown
      rw [if_neg (by simpa [ColumnSet.isEmpty_iff] using hgroup)] at hkey
      rw [KeySet.mem_singleton.mp hkey]
      exact IsKey.group hout
  | aggregateAll _ =>
      refine .ofKeys ?_
      intro known hknown key hkey
      obtain rfl := Option.some.inj hknown
      exact absurd hkey (KeySet.not_mem_empty key)
  | sort _ hperm ih => exact (ih (hplan.input (by simp [inputs]))).subperm hperm.subperm
  | limit _ | union _ | extension _ => exact .ofKeys fun hknown => absurd hknown (by simp)
  | join hl _ hout _ ihl ihr =>
      refine .join ?_ (ihl (hplan.input (by simp [inputs]))) (ihr (hplan.input (by simp [inputs])))
        hl.fits hout
      rintro rfl
      exact hplan.noFullJoin _ _ _ _ (mem_operators_self _)
  | semiJoin _ hsub ih =>
      exact .ofKeys ((ih (hplan.input (by simp [inputs]))).subperm hsub).keys
  | correlate => exact absurd rfl (hplan.noCorrelate _ (mem_operators_self _))

/-- **The answers of the built-in rules hold of the rows.** Both requests succeed on every plan; each
unique key is a key of every bag that the plan yields, and so are columns that are unique. -/
theorem Provider.builtin_sound {db : Database α} {ignoreNulls : Bool} {plan : Plan} {rows : Bag α}
    (limit : Option Nat) (hplan : plan.Keyed db ignoreNulls) (hrows : plan.Yields db rows) :
    (∃ keys, ((builtin limit).uniqueKeys plan ignoreNulls).result = .ok keys ∧
      ∀ known, keys = some known → ∀ key ∈ known, IsKey db.null ignoreNulls key rows) ∧
    ∀ columns, ∃ unique, ((builtin limit).columnsUnique plan columns ignoreNulls).result = .ok unique ∧
      (unique = some true → IsKey db.null ignoreNulls columns rows) := by
  have hsound := hrows.soundFor_derived limit hplan
  exact ⟨⟨_, result_uniqueKeys_builtin limit plan ignoreNulls, fun _ => hsound.keys⟩,
    fun columns => ⟨_, result_columnsUnique_builtin limit plan columns ignoreNulls, hsound.unique⟩⟩

/-! ### A join with an unmatched row -/

/-- Whether a condition made of conjunctions and equalities of columns is true of a row. -/
def Scalar.equatesIn (row : Row Literal) : Scalar → Bool
  | binary left .and right => left.equatesIn row && right.equatesIn row
  | binary (column i) .eq (column j) =>
    match row[i]?, row[j]? with
    | some v, some w => v != .null && v == w
    | _, _ => false
  | _ => false

/-- The database of some tables in which only conjunctions and equalities of columns are true. -/
def Database.ofTables (table : String → Bag Literal) : Database Literal where
  value := id
  table := table
  isTrue condition row := condition.equatesIn row
  isTrue_and h := by simpa [Scalar.equatesIn] using h
  isTrue_eq {i j row} h := by
    unfold Scalar.equatesIn at h
    split at h
    · next v w hv hw =>
        simp only [Bool.and_eq_true, bne_iff_ne, beq_iff_eq] at h
        exact ⟨v, h.1, hv, h.2 ▸ hw⟩
    · exact absurd h Bool.false_ne_true

/-- Orders with their customers: the second order names no customer that there is. -/
def shop : Database Literal :=
  .ofTables fun
    | "orders" => [[.int 1, .int 7], [.int 2, .int 9]]
    | "customers" => [[.int 7], [.int 8]]
    | _ => []

/-- The scan of the orders. -/
def orders : Plan :=
  .scan "orders" (.anonymous 2) [.singleton 0]

/-- The scan of the customers. -/
def customers : Plan :=
  .scan "customers" (.anonymous 1) [.singleton 0]

/-- Every order with its customer, if there is one. -/
def ordersWithCustomers : Plan :=
  .join orders customers .left (.binary (.column 1) .eq (.column 2)) (.anonymous 3)

theorem ordersWithCustomers_keyed : ordersWithCustomers.Keyed shop false := by
  have hops : ordersWithCustomers.operators = [ordersWithCustomers, orders, customers] := rfl
  have hkey : ∀ r s : Row Literal, r[0]? ≠ s[0]? → ¬ Clash shop.null false (.singleton 0) r s :=
    fun r s hne hclash => hne (hclash.agree 0 (by decide))
  constructor
  · rw [hops]
    simp [ordersWithCustomers, orders, customers, Plan.kind]
  · rw [hops]
    simp [ordersWithCustomers, orders, customers]
  · rw [hops]
    intro table schema keys hmem key hkeymem
    simp only [List.mem_cons, List.not_mem_nil, or_false, ordersWithCustomers, orders, customers,
      reduceCtorEq, false_or, Plan.scan.injEq] at hmem
    rcases hmem with ⟨rfl, -, rfl⟩ | ⟨rfl, -, rfl⟩
    · rw [List.mem_singleton.mp hkeymem]
      exact List.pairwise_pair.mpr (hkey _ _ (by decide))
    · rw [List.mem_singleton.mp hkeymem]
      exact List.pairwise_pair.mpr (hkey _ _ (by decide))

theorem ordersWithCustomers_yields :
    ordersWithCustomers.Yields shop
      [[.int 1, .int 7, .int 7], [.int 2, .int 9, .null]] := by
  have horders : orders.Yields shop (shop.table "orders") := .scan (by decide)
  have hcustomers : customers.Yields shop (shop.table "customers") := .scan (by decide)
  exact .join horders hcustomers (.of_eq (by decide)) (by decide)

/-- The order number stays unique, although an order without a customer is padded. -/
theorem builtin_sound_ordersWithCustomers :
    ((Provider.builtin (some 64)).columnsUnique ordersWithCustomers (.singleton 0) false).result
        = .ok (some true) ∧
      IsKey shop.null false (.singleton 0) [[.int 1, .int 7, .int 7], [.int 2, .int 9, .null]] := by
  obtain ⟨unique, hunique, hsound⟩ :=
    (Provider.builtin_sound (some 64) ordersWithCustomers_keyed ordersWithCustomers_yields).2
      (.singleton 0)
  have hresult : ((Provider.builtin (some 64)).columnsUnique ordersWithCustomers (.singleton 0)
      false).result = .ok (some true) := by
    rw [Provider.result_columnsUnique_builtin]
    decide
  rw [hresult] at hunique
  exact ⟨hresult, hsound (Except.ok.inj hunique).symm⟩

end QueryAnalysis
