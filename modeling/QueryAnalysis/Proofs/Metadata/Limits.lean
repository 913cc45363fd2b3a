import QueryAnalysis.Proofs.Metadata.Agreement
import QueryAnalysis.Proofs.Metadata.Trace

/-!
# The limit only drops keys

A join with too many pairs of keys leaves the combined keys out. What that does further up is not
obvious: fewer keys below may bring a join above under the limit again, and which side keeps its own
keys depends on the keys of the other. But nothing is gained. Every rule is monotone in what is known
of its inputs, so what is derived under a limit is `Derived.Below` what is derived without one
(`Plan.below_derived`): the same questions have an answer, with no more keys and no more columns that
are unique.

Where no join that is asked combines more pairs than the limit allows, nothing is left out, and the
keys are the same (`Provider.derived_keys_eq_of_combinesAtMost`).
-/

namespace QueryAnalysis

/-! ### Fewer keys -/

theorem exists_eq_some_of_none_iff {α β : Type} {a : Option α} {b : Option β}
    (h : a = none ↔ b = none) {x : α} (ha : a = some x) : ∃ y, b = some y := by
  refine Option.ne_none_iff_exists'.mp fun hb => ?_
  rw [h.mpr hb] at ha
  exact absurd ha (by simp)

instance : HasSubset KeySet where
  Subset s t := ∀ key, key ∈ s → key ∈ t

theorem KeySet.covers_of_subset {known known' : KeySet} {columns : ColumnSet}
    (hsub : known ⊆ known') (h : known.covers columns = true) : known'.covers columns = true := by
  obtain ⟨key, hmem, hkey⟩ := covers_eq_true_iff.mp h
  exact covers_eq_true_iff.mpr ⟨key, hsub key hmem, hkey⟩

/-- The same questions have an answer in both; `d` has no key and no unique columns that `e` has
not. -/
structure Derived.Below (d e : Derived) : Prop where
  unknown_iff : d.keys = none ↔ e.keys = none
  keys_subset : ∀ {known known'}, d.keys = some known → e.keys = some known' → known ⊆ known'
  undecided_iff : ∀ columns, d.unique columns = none ↔ e.unique columns = none
  unique_of_unique : ∀ {columns}, d.unique columns = some true → e.unique columns = some true

namespace Derived.Below

variable {d e : Derived}

/-- Known keys are among known keys. -/
theorem exists_keys (h : d.Below e) {known : KeySet} (hknown : d.keys = some known) :
    ∃ known', e.keys = some known' ∧ known ⊆ known' := by
  obtain ⟨known', hknown'⟩ := exists_eq_some_of_none_iff h.unknown_iff hknown
  exact ⟨known', hknown', h.keys_subset hknown hknown'⟩

/-- Where uniqueness follows from keys, the keys decide. -/
theorem ofKeys {keys keys' : Option KeySet} (hnone : keys = none ↔ keys' = none)
    (hsub : ∀ {known known'}, keys = some known → keys' = some known' → known ⊆ known') :
    (Derived.ofKeys keys).Below (Derived.ofKeys keys') where
  unknown_iff := hnone
  keys_subset := hsub
  undecided_iff columns := by
    simpa only [Derived.ofKeys, Option.map_eq_none_iff] using hnone
  unique_of_unique {columns} hunique := by
    obtain ⟨known, hknown, hcovers⟩ := Option.map_eq_some_iff.mp hunique
    obtain ⟨known', hknown'⟩ := exists_eq_some_of_none_iff hnone hknown
    exact Option.map_eq_some_iff.mpr
      ⟨known', hknown', KeySet.covers_of_subset (hsub hknown hknown') hcovers⟩

theorem refl (d : Derived) : d.Below d where
  unknown_iff := Iff.rfl
  keys_subset hknown hknown' := by
    obtain rfl := Option.some.inj (hknown.symm.trans hknown')
    exact fun _ hkey => hkey
  undecided_iff columns := Iff.rfl
  unique_of_unique hunique := hunique

theorem uniqueOn (h : d.Below e) {columns : ColumnSet} (hunique : d.uniqueOn columns = some true) :
    e.uniqueOn columns = some true := by
  unfold Derived.uniqueOn at hunique ⊢
  cases hkeys : d.keys with
  | none =>
      rw [hkeys] at hunique
      rw [h.unknown_iff.mp hkeys]
      exact h.unique_of_unique hunique
  | some known =>
      obtain ⟨known', hknown', hsub⟩ := h.exists_keys hkeys
      rw [hkeys] at hunique
      rw [hknown']
      exact congrArg some (KeySet.covers_of_subset hsub (Option.some.inj hunique))

theorem project (h : d.Below e) (columns : List Scalar) :
    (d.project columns).Below (e.project columns) where
  unknown_iff := by
    simp only [Derived.project]
    split
    · exact Iff.rfl
    · rw [Option.map_eq_none_iff, Option.map_eq_none_iff]
      exact h.unknown_iff
  keys_subset {known known'} hknown hknown' := by
    simp only [Derived.project] at hknown hknown'
    split at hknown
    · next hpassed =>
        rw [if_pos hpassed] at hknown'
        obtain rfl := Option.some.inj (hknown.symm.trans hknown')
        exact fun _ hkey => hkey
    · next hpassed =>
        rw [if_neg hpassed] at hknown'
        obtain ⟨keys, hkeys, rfl⟩ := Option.map_eq_some_iff.mp hknown
        obtain ⟨keys', hkeys', rfl⟩ := Option.map_eq_some_iff.mp hknown'
        intro out hout
        obtain ⟨key, hkey, hproject⟩ := KeySet.mem_filterMap.mp hout
        exact KeySet.mem_filterMap.mpr ⟨key, h.keys_subset hkeys hkeys' key hkey, hproject⟩
  undecided_iff wanted := h.undecided_iff _
  unique_of_unique hunique := h.unique_of_unique hunique

end Derived.Below

/-! ### Joins without a limit -/

namespace UniqueKeys

variable {kind : JoinKind} {left right : Option KeySet} {leftUnique rightUnique : Option Bool}
  {known : KeySet}

/-- Without a limit a left key and a right key together always are a key. -/
theorem union_mem_joinedKeys {ls rs : KeySet} {l r : ColumnSet} (hl : l ∈ ls) (hr : r ∈ rs) :
    l.union r ∈ joinedKeys none kind (some ls) (some rs) leftUnique rightUnique := by
  have hcombined : l.union r ∈ combinedKeys ls rs := mem_combinedKeys.mpr ⟨l, hl, r, hr, rfl⟩
  have hall : (none : Option Nat).all (fun most => decide (ls.size * rs.size ≤ most)) = true := rfl
  simp only [joinedKeys, hall, if_true]
  split <;> split <;> simp [hcombined]

/-- A left key stays one if each left row meets at most one right row. -/
theorem left_mem_joinedKeys {limit : Option Nat} {key : ColumnSet} (hkey : key ∈ known)
    (hunique : rightUnique = some true) (hpad : kind.padsLeft = false) :
    key ∈ joinedKeys limit kind (some known) right leftUnique rightUnique := by
  simp only [joinedKeys, if_pos (And.intro hunique hpad), Option.getD_some]
  split <;> simp [hkey]

/-- A right key stays one if each right row meets at most one left row. -/
theorem right_mem_joinedKeys {limit : Option Nat} {key : ColumnSet} (hkey : key ∈ known)
    (hunique : leftUnique = some true) (hpad : kind.padsRight = false) :
    key ∈ joinedKeys limit kind left (some known) leftUnique rightUnique := by
  simp only [joinedKeys, if_pos (And.intro hunique hpad), Option.getD_some]
  exact KeySet.mem_union.mpr (.inr hkey)

end UniqueKeys

namespace Derived.Below

variable {l l' r r' : Derived}

/-- A join knows no more under a limit than without one, if it knows no more of its sides. -/
theorem join (hl : l.Below l') (hr : r.Below r') (limit : Option Nat) (leftWidth : Nat)
    (kind : JoinKind) (condition : Scalar) :
    (Derived.ofKeys (Derived.joinKeys limit leftWidth kind condition l r)).Below
      (Derived.ofKeys (Derived.joinKeys none leftWidth kind condition l' r')) := by
  refine ofKeys ?_ fun {known known'} hknown hknown' key hkey => ?_
  · rw [Derived.joinKeys_eq_none_iff, Derived.joinKeys_eq_none_iff, hl.unknown_iff, hr.unknown_iff]
  · unfold Derived.joinKeys at hknown'
    split at hknown'
    · exact absurd hknown' (by simp)
    · obtain rfl := Option.some.inj hknown'
      rcases Derived.mem_joinKeys hknown hkey with
        ⟨ls, rs, hls, hrs, lk, hlk, rk, hrk, rfl⟩ | ⟨⟨hunique, hpad⟩, ls, hls, hlk⟩ |
          ⟨⟨hunique, hpad⟩, rs, hrs, rk, hrk, rfl⟩
      · obtain ⟨ls', hls', hlsub⟩ := hl.exists_keys hls
        obtain ⟨rs', hrs', hrsub⟩ := hr.exists_keys hrs
        rw [hls', hrs']
        exact UniqueKeys.union_mem_joinedKeys (hlsub lk hlk)
          (KeySet.mem_map.mpr ⟨rk, hrsub rk hrk, rfl⟩)
      · obtain ⟨ls', hls', hlsub⟩ := hl.exists_keys hls
        rw [hls']
        exact UniqueKeys.left_mem_joinedKeys (hlsub key hlk) (hr.uniqueOn hunique) hpad
      · obtain ⟨rs', hrs', hrsub⟩ := hr.exists_keys hrs
        rw [hrs']
        exact UniqueKeys.right_mem_joinedKeys (KeySet.mem_map.mpr ⟨rk, hrsub rk hrk, rfl⟩)
          (hl.uniqueOn hunique) hpad

end Derived.Below

/-- What is derived under a limit lies below what is derived without one. -/
theorem Plan.below_derived (limit : Option Nat) (plan : Plan) :
    (plan.derived limit).Below (plan.derived none) := by
  induction plan using Plan.induction_on_inputs with
  | step plan ih =>
      cases plan with
      | scan | values | aggregate | limit | union | extension => exact .refl _
      | filter input | sort input => exact ih input (by simp [inputs])
      | project input columns => exact (ih input (by simp [inputs])).project columns
      | join left right kind condition =>
          exact (ih left (by simp [inputs])).join (ih right (by simp [inputs])) limit left.width
            kind condition
      | semiJoin left | correlate left =>
          have hleft := ih left (by simp [inputs])
          exact .ofKeys hleft.unknown_iff hleft.keys_subset

/-! ### Where nothing is left out -/

theorem KeySet.size_insert_le (s : KeySet) (key : ColumnSet) : (s.insert key).size ≤ s.size + 1 := by
  unfold insert
  split
  · exact Nat.le_succ _
  · exact Nat.le_refl _

theorem KeySet.size_foldl_insert_le (keys : List ColumnSet) (s : KeySet) :
    (keys.foldl insert s).size ≤ s.size + keys.length := by
  induction keys generalizing s with
  | nil => exact Nat.le_refl _
  | cons key keys ih =>
      calc ((key :: keys).foldl insert s).size
          ≤ (s.insert key).size + keys.length := ih _
        _ ≤ s.size + 1 + keys.length := Nat.add_le_add_right (s.size_insert_le key) _
        _ = s.size + (key :: keys).length := by rw [List.length_cons]; omega

theorem KeySet.size_map_le (f : ColumnSet → ColumnSet) (s : KeySet) : (s.map f).size ≤ s.size := by
  have h := size_foldl_insert_le (s.keys.map f) empty
  rw [List.length_map] at h
  exact Nat.le_trans h (Nat.le_of_eq (Nat.zero_add _))

/-- Under a limit that is not exceeded, the keys of a join are those without a limit. -/
theorem UniqueKeys.joinedKeys_eq_of_le {most : Nat} {kind : JoinKind} {left right : Option KeySet}
    {leftUnique rightUnique : Option Bool}
    (h : ∀ ls rs, left = some ls → right = some rs → ls.size * rs.size ≤ most) :
    joinedKeys (some most) kind left right leftUnique rightUnique
      = joinedKeys none kind left right leftUnique rightUnique := by
  cases left with
  | none => rfl
  | some ls =>
      cases right with
      | none => rfl
      | some rs =>
          have hle := h ls rs rfl rfl
          simp [joinedKeys, hle]

namespace Plan

/-- Nothing is said of columns where no keys are known. -/
theorem unique_eq_none (limit : Option Nat) {plan : Plan} (hunknown : (plan.derived limit).keys = none)
    (columns : ColumnSet) : (plan.derived limit).unique columns = none := by
  induction plan using Plan.induction_on_inputs generalizing columns with
  | step plan ih =>
      cases plan with
      | filter input | sort input => exact ih input (by simp [inputs]) hunknown columns
      | project input exprs =>
          simp only [derived, Derived.project] at hunknown
          split at hunknown
          · exact absurd hunknown (by simp)
          · exact ih input (by simp [inputs]) (Option.map_eq_none_iff.mp hunknown) _
      | _ => exact congrArg (Option.map fun known => known.covers columns) hunknown

/-- Whether a side of a join has unique columns depends on its keys alone. -/
theorem uniqueOn_derived (limit : Option Nat) (plan : Plan) (columns : ColumnSet) :
    (plan.derived limit).uniqueOn columns
      = (plan.derived limit).keys.map fun known => known.covers columns := by
  unfold Derived.uniqueOn
  cases hkeys : (plan.derived limit).keys with
  | none => exact plan.unique_eq_none limit hkeys columns
  | some known => rfl

variable {limit limit' : Option Nat} {plan input : Plan}

theorem AsksNothing.keys_eq (h : plan.AsksNothing) (limit limit' : Option Nat) :
    (plan.derived limit).keys = (plan.derived limit').keys := by
  cases h with
  | project hpassed => simp [derived, Derived.project, hpassed]
  | _ => rfl

theorem PassesOn.keys_congr (h : plan.PassesOn input)
    (heq : (input.derived limit).keys = (input.derived limit').keys) :
    (plan.derived limit).keys = (plan.derived limit').keys := by
  cases h with
  | project hpassed => simp [derived, Derived.project, heq]
  | _ => exact heq

end Plan

namespace Provider

/-- If the operator is a join whose sides have known keys, at most `most` pairs can be made of
them. -/
def CombinesAtMost (p : Provider) (most : Nat) (ignoreNulls : Bool) (operator : Plan) : Prop :=
  ∀ left right kind condition schema, operator = .join left right kind condition schema →
    ∀ ls rs, (p.uniqueKeys left ignoreNulls).result = .ok (some ls) →
      (p.uniqueKeys right ignoreNulls).result = .ok (some rs) → ls.size * rs.size ≤ most

/-- **Nothing is left out if the limit is not exceeded** by a join that is asked when there is no
limit. -/
theorem derived_keys_eq_of_combinesAtMost {most : Nat} {ignoreNulls : Bool} {plan : Plan}
    (place : Place)
    (h : ∀ a ∈ requests none plan place (.uniqueKeys ignoreNulls),
      (builtin none).CombinesAtMost most ignoreNulls a.operator) :
    (plan.derived (some most)).keys = (plan.derived none).keys := by
  induction plan using Plan.keys_induction generalizing place with
  | nothing plan hplan => exact hplan.keys_eq _ _
  | passing plan input hplan ih =>
      rw [hplan.asked_uniqueKeys] at h
      exact hplan.keys_congr (ih _ fun a ha => h a (List.mem_cons_of_mem _ ha))
  | join left right kind condition schema ihl ihr =>
      rw [asked_uniqueKeys_join] at h
      have hleft : (left.derived (some most)).keys = (left.derived none).keys :=
        ihl (place ++ [0]) fun a ha => h a (by simp [ha])
      have hright : (right.derived (some most)).keys = (right.derived none).keys :=
        ihr (place ++ [1]) fun a ha => h a (by simp [ha])
      have hpairs := h _ List.mem_cons_self left right kind condition schema rfl
      simp only [result_uniqueKeys_builtin, Except.ok.injEq] at hpairs
      show Derived.joinKeys _ _ _ _ _ _ = Derived.joinKeys _ _ _ _ _ _
      simp only [Derived.joinKeys, Plan.uniqueOn_derived, hleft, hright]
      rw [UniqueKeys.joinedKeys_eq_of_le]
      intro ls shifted hls hshifted
      obtain ⟨rs, hrs, rfl⟩ := Option.map_eq_some_iff.mp hshifted
      exact Nat.le_trans (Nat.mul_le_mul_left _ (rs.size_map_le _)) (hpairs ls rs hls hrs)

/-- **A limit only drops keys.** Compare the answers under a limit with those without one. On every
plan all requests succeed. The keys are known under the limit exactly if they are known without it,
and then they are among those; they are the same if, without the limit, no join that is asked combines
more pairs of keys than the limit allows. Uniqueness of columns is unknown in the same cases, and
columns that are unique under the limit are so without it. -/
theorem builtin_limit_drops_keys (most : Nat) (plan : Plan) (ignoreNulls : Bool) :
    ∃ (keys keys' : Option KeySet) (unique unique' : ColumnSet → Option Bool),
      ((builtin (some most)).uniqueKeys plan ignoreNulls).result = .ok keys ∧
      ((builtin none).uniqueKeys plan ignoreNulls).result = .ok keys' ∧
      (∀ columns, ((builtin (some most)).columnsUnique plan columns ignoreNulls).result
        = .ok (unique columns)) ∧
      (∀ columns, ((builtin none).columnsUnique plan columns ignoreNulls).result
        = .ok (unique' columns)) ∧
      (keys = none ↔ keys' = none) ∧
      (∀ known known', keys = some known → keys' = some known' → ∀ key ∈ known, key ∈ known') ∧
      ((∀ a ∈ ((builtin none).uniqueKeys plan ignoreNulls).asked,
        (builtin none).CombinesAtMost most ignoreNulls a.operator) → keys = keys') ∧
      ∀ columns, (unique columns = none ↔ unique' columns = none) ∧
        (unique columns = some true → unique' columns = some true) := by
  have hbelow := plan.below_derived (some most)
  refine ⟨(plan.derived (some most)).keys, (plan.derived none).keys,
    (plan.derived (some most)).unique, (plan.derived none).unique,
    result_uniqueKeys_builtin _ plan ignoreNulls, result_uniqueKeys_builtin _ plan ignoreNulls,
    fun columns => result_columnsUnique_builtin _ plan columns ignoreNulls,
    fun columns => result_columnsUnique_builtin _ plan columns ignoreNulls,
    hbelow.unknown_iff, fun _ _ => hbelow.keys_subset, ?_,
    fun columns => ⟨hbelow.undecided_iff columns, hbelow.unique_of_unique⟩⟩
  intro hcombines
  rw [uniqueKeys, Outcome.asked_read] at hcombines
  exact derived_keys_eq_of_combinesAtMost [] hcombines

end Provider

/-- A table of two columns, each of them a key. -/
def pairing : Plan :=
  .scan "pairing" (.anonymous 2) [.singleton 0, .singleton 1]

/-- Every row of one table with every row of another one; there are four pairs of keys. -/
def pairings : Plan :=
  .join pairing pairing .inner (.literal (.boolean true)) (.anonymous 4)

theorem pairings_combinesAtMost_four :
    ∀ a ∈ ((Provider.builtin none).uniqueKeys pairings false).asked,
      (Provider.builtin none).CombinesAtMost 4 false a.operator := by
  have hpairing : (pairing.derived none).keys = some (.ofList [.singleton 0, .singleton 1]) := rfl
  have hasked : (((Provider.builtin none).uniqueKeys pairings false).asked.map Asked.operator)
      = [pairings, pairing, pairing] := rfl
  intro a ha left right kind condition schema hjoin ls rs hls hrs
  have hoperator : a.operator ∈ [pairings, pairing, pairing] :=
    hasked ▸ List.mem_map_of_mem ha
  rw [hjoin] at hoperator
  simp only [pairings, pairing, List.mem_cons, Plan.join.injEq, reduceCtorEq, or_false,
    List.not_mem_nil] at hoperator
  obtain ⟨rfl, rfl, -⟩ := hoperator
  rw [Provider.result_uniqueKeys_builtin] at hls hrs
  obtain rfl := Option.some.inj (hpairing.symm.trans (Except.ok.inj hls))
  obtain rfl := Option.some.inj (hpairing.symm.trans (Except.ok.inj hrs))
  decide

/-- Four pairs are within a limit of four, so that all four are keys. They are beyond a limit of
three, and no key is left. -/
theorem builtin_limit_drops_keys_pairings :
    let pairs := KeySet.ofList [.ofList [1, 2], .ofList [0, 2], .ofList [1, 3], .ofList [0, 3]]
    ((Provider.builtin none).uniqueKeys pairings false).result = .ok (some pairs) ∧
      ((Provider.builtin (some 4)).uniqueKeys pairings false).result = .ok (some pairs) ∧
      ((Provider.builtin (some 3)).uniqueKeys pairings false).result = .ok (some .empty) := by
  intro pairs
  have hunlimited : ((Provider.builtin none).uniqueKeys pairings false).result
      = .ok (some pairs) := by
    rw [Provider.result_uniqueKeys_builtin, Except.ok.injEq]
    decide
  obtain ⟨keys, keys', -, -, hkeys, hkeys', -, -, -, -, heq, -⟩ :=
    Provider.builtin_limit_drops_keys 4 pairings false
  refine ⟨hunlimited, ?_, ?_⟩
  · rw [hkeys, heq pairings_combinesAtMost_four, ← hkeys', hunlimited]
  · rw [Provider.result_uniqueKeys_builtin, Except.ok.injEq]
    decide

end QueryAnalysis
