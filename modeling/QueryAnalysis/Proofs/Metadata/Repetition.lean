import Mathlib.Algebra.Order.Group.Multiset
import QueryAnalysis.Proofs.Metadata.Trace

/-!
# No derivation is repeated

While the unique keys of a plan are found out, an operator may be asked more than once: a join that
knows the keys of one side alone asks the other side about uniqueness of columns, and that may lead to
the same keys once more. It does not get worse further down, because keys that are unknown stem from
operators whose keys are unknown as well, and among those no join asks about uniqueness.

The requests are counted as multisets of sites, a site being an operator together with its place. In
the derivation of unknown keys only sites with unknown keys are asked, and each of them once
(`Provider.keySites_of_unknown`). In any derivation the requests for keys are at most all sites and,
once more, the sites with unknown keys (`Provider.AsksSparingly.of_uniqueKeys`). As no two sites share
a place, this bounds how often the operator at a place is asked.
-/

namespace QueryAnalysis

/-! ### Sites -/

/-- A place in a plan, with the operator that stands there. -/
abbrev Site := Place × Plan

namespace Plan

/-- The sites of a plan that stands at a place, the root first. -/
def sites : Plan → Place → List Site :=
  Plan.fold fun plan below place =>
    (place, plan) :: below.zipIdx.flatMap fun (sites, i) => sites (place ++ [i])

theorem sites_eq (plan : Plan) (place : Place) :
    plan.sites place = (place, plan) ::
      plan.inputs.zipIdx.flatMap fun (input, i) => input.sites (place ++ [i]) := by
  rw [sites, fold_eq, List.zipIdx_map, List.flatMap_map]
  rfl

/-- The sites show every operator of the plan. -/
theorem map_snd_sites (plan : Plan) (place : Place) :
    (plan.sites place).map Prod.snd = plan.operators := by
  induction plan using Plan.induction_on_inputs generalizing place with
  | step plan ih =>
      have hbelow : ∀ below ∈ plan.inputs.zipIdx,
          (below.1.sites (place ++ [below.2])).map Prod.snd = below.1.operators := by
        intro below hbelow
        have hi := List.mem_zipIdx_iff_getElem?.mp hbelow
        exact ih below.1 (List.mem_of_getElem? hi) _
      rw [sites_eq, operators, fold_eq, List.map_cons, List.map_flatMap, List.flatMap_def,
        List.map_congr_left hbelow]
      change _ :: (plan.inputs.zipIdx.map (operators ∘ Prod.fst)).flatten = _
      rw [← List.map_map, List.zipIdx_map_fst]
      rfl

/-- Every site of a plan lies at or below the place of the plan. -/
theorem prefix_of_mem_sites {plan operator : Plan} {place q : Place}
    (h : (q, operator) ∈ plan.sites place) : place <+: q := by
  induction plan using Plan.induction_on_inputs generalizing place with
  | step plan ih =>
      rw [sites_eq, List.mem_cons] at h
      rcases h with h | h
      · obtain ⟨rfl, -⟩ := Prod.mk.inj h
        exact List.prefix_rfl
      · obtain ⟨⟨input, i⟩, hinput, hmem⟩ := List.mem_flatMap.mp h
        have hi := List.mem_zipIdx_iff_getElem?.mp hinput
        exact (List.prefix_append place [i]).trans (ih input (List.mem_of_getElem? hi) hmem)

/-- No two sites share a place. -/
theorem nodup_places (plan : Plan) (place : Place) : ((plan.sites place).map Prod.fst).Nodup := by
  induction plan using Plan.induction_on_inputs generalizing place with
  | step plan ih =>
      have hbelow : ∀ {input : Plan} {i : Nat} {q : Place},
          q ∈ (input.sites (place ++ [i])).map Prod.fst →
          place ++ [i] <+: q := by
        intro input i q hq
        obtain ⟨⟨_, operator⟩, hsite, rfl⟩ := List.mem_map.mp hq
        exact prefix_of_mem_sites hsite
      rw [sites_eq, List.map_cons, List.map_flatMap, List.nodup_cons, List.Nodup,
        List.pairwise_flatMap]
      refine ⟨?_, ?_, ?_⟩
      · -- The root stands above all other sites.
        intro hroot
        obtain ⟨⟨input, i⟩, -, hmem⟩ := List.mem_flatMap.mp hroot
        have hlength := (hbelow hmem).length_le
        rw [List.length_append, List.length_singleton] at hlength
        exact absurd hlength (Nat.not_succ_le_self _)
      · intro below hmem
        have hi := List.mem_zipIdx_iff_getElem?.mp hmem
        exact ih below.1 (List.mem_of_getElem? hi) _
      · -- Sites below different inputs part at the number of the input.
        refine (pairwise_zipIdx plan.inputs).imp fun hlt q hq q' hq' heq => ?_
        subst heq
        have hsame := List.prefix_of_prefix_length_le (hbelow hq) (hbelow hq') (by simp)
        have hindex := List.append_cancel_left (hsame.eq_of_length (by simp))
        exact absurd (List.singleton_inj.mp hindex) (Nat.ne_of_lt hlt)

/-- An operator and the sites of one of its inputs are sites of the plan. -/
theorem root_add_sites_le {plan input : Plan} {i : Nat} (h : plan.inputs[i]? = some input)
    (place : Place) :
    {(place, plan)} + (input.sites (place ++ [i]) : Multiset Site) ≤ plan.sites place := by
  have hmem : input.sites (place ++ [i]) ∈
      plan.inputs.zipIdx.map fun (input, i) => input.sites (place ++ [i]) :=
    List.mem_map.mpr ⟨(input, i), List.mem_zipIdx_iff_getElem?.mpr h, rfl⟩
  rw [sites_eq plan, ← Multiset.cons_coe, Multiset.singleton_add, Multiset.cons_le_cons_iff,
    Multiset.coe_le, List.flatMap_def]
  exact (List.sublist_flatten_of_mem hmem).subperm

theorem sites_join (left right : Plan) (kind : JoinKind) (condition : Scalar) (schema : Schema)
    (place : Place) :
    ((Plan.join left right kind condition schema).sites place : Multiset Site)
      = {(place, .join left right kind condition schema)} +
          (left.sites (place ++ [0]) + right.sites (place ++ [1])) := by
  rw [sites_eq]
  simp [inputs]

/-- At most one site stands at a place. -/
theorem countP_sites_le_one (plan : Plan) (place q : Place) :
    (plan.sites place : Multiset Site).countP (fun site => site.1 = q) ≤ 1 := by
  have hcount := List.nodup_iff_count_le_one.mp (plan.nodup_places place) q
  rw [List.count, List.countP_map] at hcount
  rw [Multiset.coe_countP]
  exact le_of_eq_of_le (List.countP_congr fun site _ => by simp) hcount

/-- The sites whose own keys are unknown. -/
def unknownSites (limit : Option Nat) (plan : Plan) (place : Place) : Multiset Site :=
  (plan.sites place : Multiset Site).filter fun site => (site.2.derived limit).keys = none

theorem root_le_sites (plan : Plan) (place : Place) :
    {(place, plan)} ≤ (plan.sites place : Multiset Site) := by
  rw [Multiset.singleton_le, Multiset.mem_coe, sites_eq]
  exact List.mem_cons_self

theorem unknownSites_le_sites (limit : Option Nat) (plan : Plan) (place : Place) :
    plan.unknownSites limit place ≤ plan.sites place :=
  Multiset.filter_le _ _

theorem countP_unknownSites_le_one (limit : Option Nat) (plan : Plan) (place q : Place) :
    (plan.unknownSites limit place).countP (fun site => site.1 = q) ≤ 1 :=
  (Multiset.countP_le_of_le _ (plan.unknownSites_le_sites limit place)).trans
    (plan.countP_sites_le_one place q)

/-- No site with unknown keys stands where the keys are known. -/
theorem countP_unknownSites_eq_zero {limit : Option Nat} {plan operator : Plan} {place q : Place}
    (hsite : (q, operator) ∈ plan.sites place) (hknown : (operator.derived limit).keys ≠ none) :
    (plan.unknownSites limit place).countP (fun site => site.1 = q) = 0 := by
  rw [Multiset.countP_eq_zero]
  intro site hunknown hplace
  obtain ⟨hmem, hnone⟩ := Multiset.mem_filter.mp hunknown
  have hsame : site = (q, operator) :=
    List.inj_on_of_nodup_map (plan.nodup_places place) (Multiset.mem_coe.mp hmem) hsite hplace
  rw [hsame] at hnone
  exact hknown hnone

section

variable {limit : Option Nat} {plan input : Plan} {i : Nat}

theorem unknownSites_input_le (h : plan.inputs[i]? = some input) (place : Place) :
    input.unknownSites limit (place ++ [i]) ≤ plan.unknownSites limit place :=
  Multiset.filter_le_filter _ ((Multiset.le_add_left _ _).trans (root_add_sites_le h place))

theorem root_le_unknownSites (hunknown : (plan.derived limit).keys = none) (place : Place) :
    {(place, plan)} ≤ plan.unknownSites limit place := by
  rw [Multiset.singleton_le, unknownSites, Multiset.mem_filter, Multiset.mem_coe, sites_eq]
  exact ⟨List.mem_cons_self, hunknown⟩

theorem root_add_unknownSites_le (h : plan.inputs[i]? = some input)
    (hunknown : (plan.derived limit).keys = none) (place : Place) :
    {(place, plan)} + input.unknownSites limit (place ++ [i]) ≤ plan.unknownSites limit place := by
  have hle := Multiset.filter_le_filter (fun site => (site.2.derived limit).keys = none)
    (root_add_sites_le h place)
  rwa [Multiset.filter_add, Multiset.filter_singleton, if_pos hunknown] at hle

theorem unknownSites_join (left right : Plan) (kind : JoinKind) (condition : Scalar)
    (schema : Schema) (place : Place) :
    (Plan.join left right kind condition schema).unknownSites limit place
      = (if ((Plan.join left right kind condition schema).derived limit).keys = none then
          {(place, .join left right kind condition schema)} else 0) +
          (left.unknownSites limit (place ++ [0]) + right.unknownSites limit (place ++ [1])) := by
  rw [unknownSites, sites_join, Multiset.filter_add, Multiset.filter_add,
    Multiset.filter_singleton]
  rfl

end

end Plan

/-! ### Requests as multisets of sites -/

/-- The sites that are asked for their keys. -/
def keySites (asked : List Asked) : Multiset Site :=
  ((asked : Multiset Asked).filter fun a => a.request.query = Request.uniqueKeysQuery).map
    fun a => (a.place, a.operator)

/-- The sites that are asked for anything else. -/
def otherSites (asked : List Asked) : Multiset Site :=
  ((asked : Multiset Asked).filter fun a => a.request.query ≠ Request.uniqueKeysQuery).map
    fun a => (a.place, a.operator)

section

variable (place : Place) (operator : Plan) (columns : ColumnSet) (ignoreNulls : Bool)
  (xs ys : List Asked)

@[simp] theorem keySites_nil : keySites [] = 0 := rfl

@[simp] theorem otherSites_nil : otherSites [] = 0 := rfl

@[simp] theorem keySites_append : keySites (xs ++ ys) = keySites xs + keySites ys := by
  simp [keySites, ← Multiset.coe_add]

@[simp] theorem otherSites_append : otherSites (xs ++ ys) = otherSites xs + otherSites ys := by
  simp [otherSites, ← Multiset.coe_add]

@[simp] theorem keySites_cons_uniqueKeys :
    keySites (⟨place, operator, .uniqueKeys ignoreNulls⟩ :: xs)
      = {(place, operator)} + keySites xs := by
  simp [keySites, ← Multiset.cons_coe, Request.uniqueKeys]

@[simp] theorem otherSites_cons_uniqueKeys :
    otherSites (⟨place, operator, .uniqueKeys ignoreNulls⟩ :: xs) = otherSites xs := by
  simp [otherSites, Request.uniqueKeys]

@[simp] theorem keySites_cons_columnsUnique :
    keySites (⟨place, operator, .columnsUnique columns ignoreNulls⟩ :: xs) = keySites xs := by
  have hne : Request.columnsUniqueQuery ≠ Request.uniqueKeysQuery := by decide
  simp [keySites, ← Multiset.cons_coe, Request.columnsUnique, hne]

@[simp] theorem otherSites_cons_columnsUnique :
    otherSites (⟨place, operator, .columnsUnique columns ignoreNulls⟩ :: xs)
      = {(place, operator)} + otherSites xs := by
  have hne : Request.columnsUniqueQuery ≠ Request.uniqueKeysQuery := by decide
  simp [otherSites, ← Multiset.cons_coe, Request.columnsUnique, hne]

end

/-- How often the operator at a place is asked a question. -/
def timesAsked (asked : List Asked) (place : Place) (query : String) : Nat :=
  asked.countP fun a => a.place = place ∧ a.request.query = query

theorem timesAsked_uniqueKeys (asked : List Asked) (place : Place) :
    timesAsked asked place Request.uniqueKeysQuery
      = (keySites asked).countP fun site => site.1 = place := by
  rw [keySites, Multiset.countP_map, Multiset.filter_filter, ← Multiset.countP_eq_card_filter,
    Multiset.coe_countP]
  rfl

theorem timesAsked_columnsUnique_le (asked : List Asked) (place : Place) :
    timesAsked asked place Request.columnsUniqueQuery
      ≤ (otherSites asked).countP fun site => site.1 = place := by
  have hne : Request.columnsUniqueQuery ≠ Request.uniqueKeysQuery := by decide
  rw [otherSites, Multiset.countP_map, Multiset.filter_filter, ← Multiset.countP_eq_card_filter,
    Multiset.coe_countP]
  refine List.countP_mono_left fun a _ ha => ?_
  simp only [decide_eq_true_eq] at ha ⊢
  exact ⟨ha.1, ha.2 ▸ hne⟩

theorem keySites_add_otherSites (asked : List Asked) :
    keySites asked + otherSites asked
      = (asked : Multiset Asked).map fun a => (a.place, a.operator) := by
  rw [keySites, otherSites, ← Multiset.map_add, Multiset.filter_add_not]

namespace Provider

/-! ### Bounds -/

variable {limit : Option Nat} {plan : Plan}

/-- In the derivation of unknown keys only sites with unknown keys are asked, each of them once, and
only for their keys. -/
theorem keySites_of_unknown (hunknown : (plan.derived limit).keys = none) (place : Place)
    (ignoreNulls : Bool) :
    keySites (requests limit plan place (.uniqueKeys ignoreNulls)) ≤ plan.unknownSites limit place ∧
      otherSites (requests limit plan place (.uniqueKeys ignoreNulls)) = 0 := by
  induction plan using Plan.keys_induction generalizing place with
  | nothing plan hplan =>
      rw [hplan.asked_uniqueKeys]
      simpa using Plan.root_le_unknownSites hunknown place
  | passing plan input hplan ih =>
      obtain ⟨hkeys, hother⟩ := ih (hplan.keys_eq_none_iff.mp hunknown) (place ++ [0])
      rw [hplan.asked_uniqueKeys, keySites_cons_uniqueKeys, otherSites_cons_uniqueKeys]
      refine ⟨?_, hother⟩
      calc {(place, plan)} + keySites (requests limit input (place ++ [0]) (.uniqueKeys ignoreNulls))
          ≤ {(place, plan)} + input.unknownSites limit (place ++ [0]) := by gcongr
        _ ≤ plan.unknownSites limit place :=
            Plan.root_add_unknownSites_le hplan.getElem?_inputs hunknown place
  | join left right kind condition schema ihl ihr =>
      obtain ⟨hl, hr⟩ := Derived.joinKeys_eq_none_iff.mp hunknown
      obtain ⟨hlkeys, hlother⟩ := ihl hl (place ++ [0])
      obtain ⟨hrkeys, hrother⟩ := ihr hr (place ++ [1])
      rw [asked_uniqueKeys_join, if_pos ⟨hl, hr⟩, Plan.unknownSites_join, if_pos hunknown]
      simp only [keySites_cons_uniqueKeys, keySites_append, otherSites_cons_uniqueKeys,
        otherSites_append, keySites_nil, otherSites_nil, add_zero, hlother, hrother]
      exact ⟨by gcongr, trivial⟩

/-- The same if uniqueness of columns is asked for, except that an operator may be asked for that as
well. -/
theorem columnsUnique_of_unknown (hunknown : (plan.derived limit).keys = none) (place : Place)
    (columns : ColumnSet) (ignoreNulls : Bool) :
    keySites (requests limit plan place (.columnsUnique columns ignoreNulls))
        ≤ plan.unknownSites limit place ∧
      otherSites (requests limit plan place (.columnsUnique columns ignoreNulls))
        ≤ plan.unknownSites limit place := by
  induction plan using Plan.induction_on_inputs generalizing place columns with
  | step plan ih =>
      rcases asked_columnsUnique_cases limit plan with
        ⟨input, sources, hinput, hkeys, hasked⟩ | hasked
      · obtain ⟨hkey, hother⟩ := ih input (List.mem_of_getElem? hinput) (hkeys hunknown)
          (place ++ [0]) (sources columns)
        rw [hasked, keySites_cons_columnsUnique, otherSites_cons_columnsUnique]
        refine ⟨hkey.trans (Plan.unknownSites_input_le hinput place), ?_⟩
        exact (add_le_add_right hother _).trans
          (Plan.root_add_unknownSites_le hinput hunknown place)
      · obtain ⟨hkey, hother⟩ := keySites_of_unknown hunknown place ignoreNulls
        rw [hasked, keySites_cons_columnsUnique, otherSites_cons_columnsUnique, hother, add_zero]
        exact ⟨hkey, Plan.root_le_unknownSites hunknown place⟩

/-- The requests for keys are at most all sites and once more the sites with unknown keys, and those
for anything else at most the sites with unknown keys. -/
structure AsksSparingly (limit : Option Nat) (plan : Plan) (place : Place) (asked : List Asked) :
    Prop where
  keys_le : keySites asked ≤ plan.sites place + plan.unknownSites limit place
  other_le : otherSites asked ≤ plan.unknownSites limit place

namespace AsksSparingly

/-! ### How sparing requests are put together -/

section

variable {place : Place} (ignoreNulls : Bool)

theorem of_asksNothing (hplan : plan.AsksNothing) :
    AsksSparingly limit plan place (requests limit plan place (.uniqueKeys ignoreNulls)) := by
  rw [hplan.asked_uniqueKeys]
  constructor
  · rw [keySites_cons_uniqueKeys, keySites_nil, add_zero]
    exact (plan.root_le_sites place).trans (Multiset.le_add_right _ _)
  · rw [otherSites_cons_uniqueKeys, otherSites_nil]
    exact Multiset.zero_le _

/-- An operator that asks one input adds itself. -/
theorem passing {input : Plan} {asked : List Asked} (hplan : plan.PassesOn input)
    (h : AsksSparingly limit input (place ++ [0]) asked) :
    AsksSparingly limit plan place (⟨place, plan, .uniqueKeys ignoreNulls⟩ :: asked) := by
  have hinput := hplan.getElem?_inputs
  have hunknown : input.unknownSites limit (place ++ [0]) ≤ plan.unknownSites limit place :=
    Plan.unknownSites_input_le hinput place
  constructor
  · rw [keySites_cons_uniqueKeys]
    calc {(place, plan)} + keySites asked
        ≤ {(place, plan)} +
            (input.sites (place ++ [0]) + input.unknownSites limit (place ++ [0])) := by
          gcongr
          exact h.keys_le
      _ = {(place, plan)} + input.sites (place ++ [0])
            + input.unknownSites limit (place ++ [0]) := by ac_rfl
      _ ≤ plan.sites place + plan.unknownSites limit place :=
          add_le_add (Plan.root_add_sites_le hinput place) hunknown
  · rw [otherSites_cons_uniqueKeys]
    exact h.other_le.trans hunknown

/-- A side of a join is asked for its keys, and about uniqueness only if these are unknown. -/
theorem side {side : Plan}
    (h : AsksSparingly limit side place (requests limit side place (.uniqueKeys ignoreNulls)))
    (columns : ColumnSet) :
    AsksSparingly limit side place
      (requests limit side place (.uniqueKeys ignoreNulls) ++
        (side.derived limit).ifUnknown
          (requests limit side place (.columnsUnique columns ignoreNulls))) := by
  unfold Derived.ifUnknown
  split
  · next hunknown =>
      obtain ⟨hkeys, hother⟩ := keySites_of_unknown hunknown place ignoreNulls
      obtain ⟨hkeys', hother'⟩ := columnsUnique_of_unknown hunknown place columns ignoreNulls
      constructor
      · rw [keySites_append]
        exact add_le_add (hkeys.trans (side.unknownSites_le_sites limit place)) hkeys'
      · rw [otherSites_append, hother, zero_add]
        exact hother'
  · rwa [List.append_nil]

/-- A join adds itself to what its sides are asked, whatever the order of that. -/
theorem join {left right : Plan} {kind : JoinKind} {condition : Scalar} {schema : Schema}
    {l l' r r' : List Asked} (hl : AsksSparingly limit left (place ++ [0]) (l ++ l'))
    (hr : AsksSparingly limit right (place ++ [1]) (r ++ r')) :
    AsksSparingly limit (.join left right kind condition schema) place
      (⟨place, .join left right kind condition schema, .uniqueKeys ignoreNulls⟩ ::
        (l ++ (r ++ (l' ++ r')))) := by
  obtain ⟨hlkeys, hlother⟩ := hl
  obtain ⟨hrkeys, hrother⟩ := hr
  simp only [keySites_append, otherSites_append] at hlkeys hrkeys hlother hrother
  have hunknown : left.unknownSites limit (place ++ [0]) + right.unknownSites limit (place ++ [1])
      ≤ (Plan.join left right kind condition schema).unknownSites limit place := by
    rw [Plan.unknownSites_join]
    exact Multiset.le_add_left _ _
  constructor
  · simp only [keySites_cons_uniqueKeys, keySites_append, Plan.sites_join]
    generalize ({(place, Plan.join left right kind condition schema)} : Multiset Site) = root
    calc root + (keySites l + (keySites r + (keySites l' + keySites r')))
        = root + ((keySites l + keySites l') + (keySites r + keySites r')) := by ac_rfl
      _ ≤ root + ((left.sites (place ++ [0]) + left.unknownSites limit (place ++ [0])) +
            (right.sites (place ++ [1]) + right.unknownSites limit (place ++ [1]))) := by
          gcongr
      _ = root + (left.sites (place ++ [0]) + right.sites (place ++ [1])) +
            (left.unknownSites limit (place ++ [0]) + right.unknownSites limit (place ++ [1])) := by
          ac_rfl
      _ ≤ _ := by gcongr
  · simp only [otherSites_cons_uniqueKeys, otherSites_append]
    calc otherSites l + (otherSites r + (otherSites l' + otherSites r'))
        = (otherSites l + otherSites l') + (otherSites r + otherSites r') := by ac_rfl
      _ ≤ left.unknownSites limit (place ++ [0]) + right.unknownSites limit (place ++ [1]) :=
          add_le_add hlother hrother
      _ ≤ _ := hunknown

end

/-- The derivation of unique keys asks sparingly. -/
theorem of_uniqueKeys (limit : Option Nat) (plan : Plan) (place : Place) (ignoreNulls : Bool) :
    AsksSparingly limit plan place (requests limit plan place (.uniqueKeys ignoreNulls)) := by
  induction plan using Plan.keys_induction generalizing place with
  | nothing plan hplan => exact of_asksNothing ignoreNulls hplan
  | passing plan input hplan ih =>
      rw [hplan.asked_uniqueKeys]
      exact (ih _).passing ignoreNulls hplan
  | join left right kind condition schema ihl ihr =>
      have hl := ihl (place ++ [0])
      have hr := ihr (place ++ [1])
      rw [asked_uniqueKeys_join]
      split
      · -- Neither side is asked any further.
        have hl : AsksSparingly limit left (place ++ [0])
            (requests limit left (place ++ [0]) (.uniqueKeys ignoreNulls) ++ []) := by
          rwa [List.append_nil]
        have hr : AsksSparingly limit right (place ++ [1])
            (requests limit right (place ++ [1]) (.uniqueKeys ignoreNulls) ++ []) := by
          rwa [List.append_nil]
        exact hl.join ignoreNulls hr
      · exact (hl.side ignoreNulls _).join ignoreNulls (hr.side ignoreNulls _)

/-! ### What sparing requests amount to -/

section

variable {place : Place} {asked : List Asked} (h : AsksSparingly limit plan place asked)

include h

theorem otherSites_le_sites : otherSites asked ≤ plan.sites place :=
  h.other_le.trans (plan.unknownSites_le_sites limit place)

theorem length_le : asked.length ≤ 3 * plan.operators.length := by
  have hoperators := congrArg List.length (plan.map_snd_sites place)
  have htotal := congrArg Multiset.card (keySites_add_otherSites asked)
  have hkeys := Multiset.card_le_card h.keys_le
  have hunknown := Multiset.card_le_card (plan.unknownSites_le_sites limit place)
  have hother := Multiset.card_le_card h.otherSites_le_sites
  simp only [Multiset.card_add, Multiset.card_map, Multiset.coe_card, List.length_map] at *
  omega

/-- Only operators of the plan are asked. -/
theorem mem_sites {a : Asked} (ha : a ∈ asked) : (a.place, a.operator) ∈ plan.sites place := by
  have hmem : (a.place, a.operator) ∈ keySites asked + otherSites asked := by
    rw [keySites_add_otherSites]
    exact Multiset.mem_map_of_mem _ (Multiset.mem_coe.mpr ha)
  rcases Multiset.mem_add.mp hmem with hkey | hother
  · rcases Multiset.mem_add.mp (Multiset.mem_of_le h.keys_le hkey) with hsite | hunknown
    · exact hsite
    · exact Multiset.mem_of_le (plan.unknownSites_le_sites limit place) hunknown
  · exact Multiset.mem_of_le h.otherSites_le_sites hother

/-- An operator is asked for its keys once, and once more if its keys are unknown. -/
theorem timesAsked_uniqueKeys_le (q : Place) :
    timesAsked asked q Request.uniqueKeysQuery
      ≤ 1 + (plan.unknownSites limit place).countP fun site => site.1 = q := by
  calc timesAsked asked q Request.uniqueKeysQuery
      = (keySites asked).countP fun site => site.1 = q := timesAsked_uniqueKeys asked q
    _ ≤ (plan.sites place + plan.unknownSites limit place).countP fun site => site.1 = q :=
        Multiset.countP_le_of_le _ h.keys_le
    _ ≤ 1 + (plan.unknownSites limit place).countP fun site => site.1 = q := by
        rw [Multiset.countP_add]
        exact Nat.add_le_add_right (plan.countP_sites_le_one place q) _

theorem timesAsked_columnsUnique_le_one (q : Place) :
    timesAsked asked q Request.columnsUniqueQuery ≤ 1 :=
  calc timesAsked asked q Request.columnsUniqueQuery
      ≤ (otherSites asked).countP fun site => site.1 = q := timesAsked_columnsUnique_le asked q
    _ ≤ (plan.sites place : Multiset Site).countP fun site => site.1 = q :=
        Multiset.countP_le_of_le _ h.otherSites_le_sites
    _ ≤ 1 := plan.countP_sites_le_one place q

end

end AsksSparingly

/-- **No derivation is repeated.** While the unique keys of a plan are found out, only operators of
the plan are asked, three times each on the average at most. The operator at a place is asked for its
keys at most twice, and only once if they are known; it is asked about uniqueness of columns at most
once. -/
theorem builtin_asks_sparingly (limit : Option Nat) (plan : Plan) (ignoreNulls : Bool) :
    let asked := ((builtin limit).uniqueKeys plan ignoreNulls).asked
    asked.length ≤ 3 * plan.operators.length ∧
      (∀ a ∈ asked, (a.place, a.operator) ∈ plan.sites []) ∧
      ∀ place operator, (place, operator) ∈ plan.sites [] →
        timesAsked asked place Request.uniqueKeysQuery ≤ 2 ∧
          timesAsked asked place Request.columnsUniqueQuery ≤ 1 ∧
          ∀ known, ((builtin limit).uniqueKeys operator ignoreNulls).result = .ok (some known) →
            timesAsked asked place Request.uniqueKeysQuery ≤ 1 := by
  have hasked : ((builtin limit).uniqueKeys plan ignoreNulls).asked
      = requests limit plan [] (.uniqueKeys ignoreNulls) := Outcome.asked_read _ _
  have hsparing := AsksSparingly.of_uniqueKeys limit plan [] ignoreNulls
  rw [← hasked] at hsparing
  refine ⟨hsparing.length_le, fun a ha => hsparing.mem_sites ha, ?_⟩
  intro place operator hsite
  have hkeys := hsparing.timesAsked_uniqueKeys_le place
  have hunknown := plan.countP_unknownSites_le_one limit [] place
  refine ⟨by omega, hsparing.timesAsked_columnsUnique_le_one place, ?_⟩
  intro known hresult
  have hknown : (operator.derived limit).keys ≠ none := by
    rw [result_uniqueKeys_builtin] at hresult
    rw [Except.ok.inj hresult]
    exact Option.some_ne_none known
  have hzero := Plan.countP_unknownSites_eq_zero hsite hknown
  omega

end Provider

/-- Two rows without a key. -/
def twoNumbers : Plan :=
  .values (.anonymous 1) [[.int 7], [.int 8]]

/-- Two numbers, each with the customer of that number. -/
def numberedCustomers : Plan :=
  .join twoNumbers customers .inner (.binary (.column 0) .eq (.column 1)) (.anonymous 2)

/-- The numbers have no known keys. They are asked about uniqueness as well, and so for their keys
once more, while the customers are asked for their keys only. -/
theorem builtin_asks_sparingly_numberedCustomers :
    let asked := ((Provider.builtin (some 64)).uniqueKeys numberedCustomers true).asked
    timesAsked asked [0] Request.uniqueKeysQuery = 2 ∧
      timesAsked asked [0] Request.columnsUniqueQuery = 1 ∧
      timesAsked asked [1] Request.uniqueKeysQuery = 1 := by
  have hsites : numberedCustomers.sites []
      = [([], numberedCustomers), ([0], twoNumbers), ([1], customers)] := rfl
  have hcustomersKnown : ((Provider.builtin (some 64)).uniqueKeys customers true).result
      = .ok (some (.ofList [.singleton 0])) := Provider.result_uniqueKeys_builtin _ _ _
  obtain ⟨-, -, htimes⟩ := Provider.builtin_asks_sparingly (some 64) numberedCustomers true
  rw [hsites] at htimes
  obtain ⟨hkeys, hunique, -⟩ := htimes [0] twoNumbers (by simp)
  obtain ⟨-, -, honce⟩ := htimes [1] customers (by simp)
  refine ⟨le_antisymm hkeys ?_, le_antisymm hunique ?_, le_antisymm (honce _ hcustomersKnown) ?_⟩
  · decide
  · decide
  · decide

end QueryAnalysis
