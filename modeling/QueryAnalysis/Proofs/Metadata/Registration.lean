import Mathlib.Data.List.Nodup
import QueryAnalysis.Metadata.Reply
import QueryAnalysis.Proofs.Lists
import QueryAnalysis.Proofs.Metadata.Consultation

/-!
# Registrations decide dispatch

A table is made by declarations, one after the other. It is accepted if no two rules are registered
for the same query, kind and signature, and then its rules are the registrations and the argument
types of a query those that were declared last (`HandlerTable.MadeOf.foldlM_add`). Whatever the
order, therefore, a request is dispatched by what is registered and by the types of its query
(`HandlerTable.registrations_decide_dispatch`).

Dispatch looks rules up by the types of the query, and the arguments have to have those types. So a
rule never gets arguments of other types than those of its signature: with rules that would do
anything else with such arguments (`HandlerTable.patched`) every run is the same
(`HandlerTable.answerFrom_patched`).
-/

namespace QueryAnalysis

/-! ### What declarations say -/

/-- The rule that is registered, with what it is registered for. -/
def Declaration.registration? : Declaration → Option (HandlerKey × Handler)
  | .types _ _ => none
  | .handler key rule => some (key, rule)

/-- The argument types that are declared for a query. -/
def Declaration.typesOf? (query : String) : Declaration → Option (List ArgType)
  | .types name signature => if query = name then some signature else none
  | .handler _ _ => none

/-- The rules that are registered, in order. -/
def registrations (declarations : List Declaration) : List (HandlerKey × Handler) :=
  declarations.filterMap Declaration.registration?

/-- The argument types that are declared for a query last; none if there are no such declarations.
-/
def lastTypes (declarations : List Declaration) (query : String) : List ArgType :=
  ((declarations.filterMap (Declaration.typesOf? query)).getLast?).getD []

theorem mem_registrations {declarations : List Declaration} {key : HandlerKey} {handler : Handler} :
    (key, handler) ∈ registrations declarations ↔ .handler key handler ∈ declarations := by
  rw [registrations, List.mem_filterMap]
  constructor
  · intro h
    obtain ⟨declaration, hmem, hkey⟩ := h
    cases declaration with
    | types query signature => exact absurd hkey (by simp [Declaration.registration?])
    | handler key' handler' =>
        obtain ⟨rfl, rfl⟩ := Prod.mk.inj (Option.some.inj hkey)
        exact hmem
  · intro h
    exact ⟨_, h, rfl⟩

/-- A rule that is registered for what another one is. -/
theorem not_nodup_registrations {before after : List Declaration} {key : HandlerKey}
    {handler : Handler} (h : key ∈ (registrations before).map Prod.fst) :
    ¬ ((registrations (before ++ .handler key handler :: after)).map Prod.fst).Nodup := by
  rw [registrations, List.filterMap_append, List.map_append, List.nodup_append]
  intro hnodup
  exact hnodup.2.2 key h key (List.mem_map_of_mem (mem_registrations.mpr List.mem_cons_self)) rfl

section

variable (declarations : List Declaration) (query : String) (signature : List ArgType)
  (key : HandlerKey) (handler : Handler)

@[simp] theorem registrations_append_types :
    registrations (declarations ++ [.types query signature]) = registrations declarations := by
  rw [registrations, List.filterMap_append]
  exact List.append_nil _

@[simp] theorem registrations_append_handler :
    registrations (declarations ++ [.handler key handler])
      = registrations declarations ++ [(key, handler)] := by
  rw [registrations, List.filterMap_append]
  rfl

@[simp] theorem lastTypes_append_types (query' : String) :
    lastTypes (declarations ++ [.types query signature]) query'
      = if query' = query then signature else lastTypes declarations query' := by
  unfold lastTypes
  rw [List.filterMap_append]
  split
  · next hquery => simp [Declaration.typesOf?, hquery]
  · next hquery => simp [Declaration.typesOf?, hquery]

@[simp] theorem lastTypes_append_handler :
    lastTypes (declarations ++ [.handler key handler]) query = lastTypes declarations query := by
  rw [lastTypes, List.filterMap_append]
  exact congrArg (fun types => (List.getLast? types).getD []) (List.append_nil _)

end

/-- A rule that does as `other` does with arguments that do not have the types of a signature. -/
def guarded (signature : List ArgType) (handler other : Handler) : Handler := fun plan args =>
  if args.map Arg.type = signature then handler plan args else other plan args

namespace HandlerTable

variable {t t' : HandlerTable} {declarations : List Declaration}

/-! ### Making a table -/

/-- The table has the registrations, each for a key of its own, and the types that were declared
last. -/
structure MadeOf (declarations : List Declaration) (t : HandlerTable) : Prop where
  handlers : t.handlers = registrations declarations
  nodup : ((registrations declarations).map Prod.fst).Nodup
  types : ∀ query, t.parameterTypes query = lastTypes declarations query

theorem madeOf_new (name : String) : MadeOf [] (new name) :=
  ⟨rfl, List.nodup_nil, fun _ => rfl⟩

theorem MadeOf.declare (h : MadeOf declarations t) (query : String) (signature : List ArgType) :
    MadeOf (declarations ++ [.types query signature]) (t.declare query signature) where
  handlers := by rw [registrations_append_types, ← h.handlers, HandlerTable.declare]
  nodup := by rw [registrations_append_types]; exact h.nodup
  types query' := by
    rw [lastTypes_append_types, ← h.types, HandlerTable.declare, parameterTypes, parameterTypes,
      List.lookup_cons]
    by_cases hquery : query' = query
    · simp [hquery]
    · simp [hquery, beq_eq_false_iff_ne.mpr hquery]

theorem MadeOf.register (h : MadeOf declarations t) {key : HandlerKey} (handler : Handler)
    (hkey : key ∉ (registrations declarations).map Prod.fst) :
    MadeOf (declarations ++ [.handler key handler])
      { t with handlers := t.handlers ++ [(key, handler)] } where
  handlers := by rw [registrations_append_handler, h.handlers]
  nodup := by
    rw [registrations_append_handler, List.map_append]
    exact List.Nodup.append h.nodup (List.nodup_singleton key) (List.disjoint_singleton.mpr hkey)
  types query := by rw [lastTypes_append_handler, ← h.types, parameterTypes, parameterTypes]

/-- A step in making a table: it is refused just if a rule is registered for a key that has one. -/
theorem MadeOf.add (h : MadeOf declarations t) (declaration : Declaration) :
    (∃ t', t.add declaration = .ok t' ∧ t'.name = t.name ∧
        MadeOf (declarations ++ [declaration]) t') ∨
      ∃ key handler, declaration = .handler key handler ∧
        key ∈ (registrations declarations).map Prod.fst ∧
        t.add declaration = .error (.ambiguousHandler key.query key.kind key.signature) := by
  cases declaration with
  | types query signature => exact .inl ⟨_, rfl, rfl, h.declare query signature⟩
  | handler key handler =>
      rw [HandlerTable.add, HandlerTable.register, h.handlers]
      by_cases hkey : key ∈ (registrations declarations).map Prod.fst
      · exact .inr ⟨key, handler, rfl, hkey, if_pos (List.contains_iff_mem.mpr hkey)⟩
      · have hmade := h.register handler hkey
        rw [h.handlers] at hmade
        exact .inl ⟨_, if_neg fun hmem => hkey (List.contains_iff_mem.mp hmem), rfl, hmade⟩

/-- The steps in making a table: all are made, or they end with the first rule that is registered
for a key that has one. -/
theorem MadeOf.foldlM_add (h : MadeOf declarations t) (more : List Declaration) :
    (∃ t', more.foldlM HandlerTable.add t = .ok t' ∧ t'.name = t.name ∧
        MadeOf (declarations ++ more) t') ∨
      ∃ before key handler after, more = before ++ .handler key handler :: after ∧
        key ∈ (registrations (declarations ++ before)).map Prod.fst ∧
        more.foldlM HandlerTable.add t
          = .error (.ambiguousHandler key.query key.kind key.signature) := by
  induction more generalizing t declarations with
  | nil => exact .inl ⟨t, rfl, rfl, by rwa [List.append_nil]⟩
  | cons declaration more ih =>
      rcases h.add declaration with ⟨t', hadd, hname, hmade⟩ | ⟨key, handler, rfl, hkey, hadd⟩
      · have hrun : (declaration :: more).foldlM HandlerTable.add t
            = more.foldlM HandlerTable.add t' := by
          rw [List.foldlM_cons, hadd]
          rfl
        rw [hrun]
        rcases ih hmade with ⟨t'', hok, hname', hmade'⟩ | ⟨before, key, handler, after, rfl, hrest⟩
        · exact .inl ⟨t'', hok, hname'.trans hname, by simpa using hmade'⟩
        · exact .inr ⟨declaration :: before, key, handler, after, rfl, by simpa using hrest⟩
      · have hrun : (Declaration.handler key handler :: more).foldlM HandlerTable.add t
            = .error (.ambiguousHandler key.query key.kind key.signature) := by
          rw [List.foldlM_cons, hadd]
          rfl
        exact .inr ⟨[], key, handler, more, rfl, by simpa using hkey, hrun⟩

theorem ofDeclarations_cases (name : String) (declarations : List Declaration) :
    (∃ t, ofDeclarations name declarations = .ok t ∧ t.name = name ∧ MadeOf declarations t) ∨
      ∃ before key handler after, declarations = before ++ .handler key handler :: after ∧
        key ∈ (registrations before).map Prod.fst ∧
        ofDeclarations name declarations
          = .error (.ambiguousHandler key.query key.kind key.signature) :=
  (madeOf_new name).foldlM_add declarations

theorem madeOf_ofDeclarations {name : String} (h : ofDeclarations name declarations = .ok t) :
    t.name = name ∧ MadeOf declarations t := by
  rcases ofDeclarations_cases name declarations with
    ⟨t', hok, hname, hmade⟩ | ⟨before, key, handler, after, -, -, herror⟩
  · obtain rfl := Except.ok.inj (hok.symm.trans h)
    exact ⟨hname, hmade⟩
  · exact absurd (herror.symm.trans h) (by simp)

/-! ### Looking a rule up -/

/-- A rule is registered with the types of its query. -/
def Registered (declarations : List Declaration) (query : String) (kind : OperatorKind)
    (handler : Handler) : Prop :=
  .handler ⟨query, kind, lastTypes declarations query⟩ handler ∈ declarations

theorem MadeOf.handler?_eq_some_iff (h : MadeOf declarations t) {query : String}
    {kind : OperatorKind} {handler : Handler} :
    t.handler? ⟨query, kind, t.parameterTypes query⟩ = some handler ↔
      Registered declarations query kind handler := by
  rw [handler?, h.handlers, lookup_eq_some_iff_mem h.nodup, h.types, mem_registrations, Registered]

theorem MadeOf.handler?_eq_none_iff (h : MadeOf declarations t) {query : String}
    {kind : OperatorKind} :
    t.handler? ⟨query, kind, t.parameterTypes query⟩ = none ↔
      ∀ handler, ¬ Registered declarations query kind handler := by
  rw [Option.eq_none_iff_forall_ne_some]
  exact forall_congr' fun handler => not_congr h.handler?_eq_some_iff

theorem MadeOf.resolve?_eq_some_iff (h : MadeOf declarations t) {query : String}
    {kind tag : OperatorKind} {handler : Handler} :
    t.resolve? kind query = some (tag, handler) ↔
      ∃ above below, kind.lineage = above ++ tag :: below ∧
        Registered declarations query tag handler ∧
        ∀ tag' ∈ above, ∀ handler', ¬ Registered declarations query tag' handler' := by
  rw [resolve?, List.findSome?_eq_some_iff]
  simp only [Option.map_eq_some_iff, Option.map_eq_none_iff, h.handler?_eq_none_iff,
    h.handler?_eq_some_iff, Prod.mk.injEq]
  constructor
  · intro hfound
    obtain ⟨above, _, below, hlineage, ⟨_, hregistered, rfl, rfl⟩, habove⟩ := hfound
    exact ⟨above, below, hlineage, hregistered, habove⟩
  · intro hfound
    obtain ⟨above, below, hlineage, hregistered, habove⟩ := hfound
    exact ⟨above, tag, below, hlineage, ⟨handler, hregistered, rfl, rfl⟩, habove⟩

theorem MadeOf.resolve?_eq_none_iff (h : MadeOf declarations t) {query : String}
    {kind : OperatorKind} :
    t.resolve? kind query = none ↔
      ∀ tag ∈ kind.lineage, ∀ handler, ¬ Registered declarations query tag handler := by
  rw [resolve?, List.findSome?_eq_none_iff]
  simp only [Option.map_eq_none_iff, h.handler?_eq_none_iff]

/-- Tables with the same rules and the same types look rules up alike, in whatever order they were
declared. -/
theorem MadeOf.resolve?_congr {others : List Declaration} (h : MadeOf declarations t)
    (h' : MadeOf others t')
    (hrules : ∀ key handler,
      .handler key handler ∈ declarations ↔ .handler key handler ∈ others)
    (htypes : lastTypes declarations = lastTypes others) : t.resolve? = t'.resolve? := by
  funext kind query
  have hregistered : ∀ tag handler,
      Registered declarations query tag handler ↔ Registered others query tag handler := by
    intro tag handler
    rw [Registered, Registered, htypes]
    exact hrules _ handler
  refine Option.ext fun found => ?_
  rw [h.resolve?_eq_some_iff, h'.resolve?_eq_some_iff]
  simp only [hregistered]

/-! ### Requests -/

section

variable {plan : Plan} {query : String} {args : List Arg} {found : OperatorKind × Handler}

theorem inquiry_of_unresolved (h : t.resolve? plan.kind query = none) :
    t.inquiry plan ⟨query, args⟩ = .done none := by
  simp only [inquiry, h]

theorem inquiry_of_types (h : t.resolve? plan.kind query = some found)
    (htypes : args.map Arg.type = t.parameterTypes query) :
    t.inquiry plan ⟨query, args⟩ = found.2 plan args := by
  simp only [inquiry, h, if_pos htypes]

theorem inquiry_of_other_types (h : t.resolve? plan.kind query = some found)
    (htypes : args.map Arg.type ≠ t.parameterTypes query) :
    t.inquiry plan ⟨query, args⟩
      = .fail (.argumentTypes t.name query (t.parameterTypes query) args) := by
  simp only [inquiry, h, if_neg htypes]

end

/-! ### Arguments of other types -/

/-- The table with rules that do as `other` does with arguments that do not have the types of their
signatures. -/
def patched (t : HandlerTable) (other : HandlerKey → Handler) : HandlerTable :=
  { t with handlers := t.handlers.map fun entry =>
      (entry.1, guarded entry.1.signature entry.2 (other entry.1)) }

@[simp] theorem parameterTypes_patched (t : HandlerTable) (other : HandlerKey → Handler)
    (query : String) : (t.patched other).parameterTypes query = t.parameterTypes query := rfl

theorem resolve?_patched (t : HandlerTable) (other : HandlerKey → Handler) (kind : OperatorKind)
    (query : String) :
    (t.patched other).resolve? kind query = (t.resolve? kind query).map fun found =>
      (found.1, guarded (t.parameterTypes query) found.2
        (other ⟨query, found.1, t.parameterTypes query⟩)) := by
  rw [resolve?, resolve?, List.map_findSome?]
  congr 1
  funext tag
  rw [handler?, patched,
    lookup_map_snd fun key handler => guarded key.signature handler (other key)]
  simp only [handler?, parameterTypes, Function.comp_apply, Option.map_map]
  rfl

/-- What a rule would do with arguments of other types is never found out. -/
theorem inquiry_patched (t : HandlerTable) (other : HandlerKey → Handler) :
    (t.patched other).inquiry = t.inquiry := by
  funext plan request
  rw [inquiry, inquiry, resolve?_patched, parameterTypes_patched]
  cases t.resolve? plan.kind request.query with
  | none => rfl
  | some found =>
      by_cases htypes : request.args.map Arg.type = t.parameterTypes request.query
      · simp only [Option.map_some, guarded, if_pos htypes]
      · simp only [Option.map_some, if_neg htypes]
        rfl

/-- Wherever a table stands among others, what its rules would do with arguments of other types has
no influence on any answer, nor on any event on the way to it. -/
theorem answerFrom_patched (t : HandlerTable) (other : HandlerKey → Handler)
    {before after : List HandlerTable} {p p' : Provider} (hp : p.tables = before ++ t :: after)
    (hp' : p'.tables = before ++ t.patched other :: after) : p'.answerFrom = p.answerFrom := by
  refine Provider.answerFrom_congr fun replies plan request => ?_
  rw [Provider.consult_eq_consultAll replies plan request p,
    Provider.consult_eq_consultAll replies plan request p', hp, hp']
  simp only [List.map_append, List.map_cons, Provider.consultAll_append]
  congr 1
  funext reply
  cases reply with
  | some answer => rfl
  | none => simp only [Provider.consultAll, Provider.consult, inquiry_patched]

/-! ### Dispatch -/

/-- What is registered, and the types that were declared last, decide what a table makes of
requests. -/
structure DispatchesBy (declarations : List Declaration) (t : HandlerTable) : Prop where
  /-- The rule for a kind is that of the first kind in its lineage for which one is registered with
  the types of the query. -/
  resolved : ∀ query kind tag handler, t.resolve? kind query = some (tag, handler) ↔
    ∃ above below, kind.lineage = above ++ tag :: below ∧
      Registered declarations query tag handler ∧
      ∀ tag' ∈ above, ∀ handler', ¬ Registered declarations query tag' handler'
  unresolved : ∀ query kind, t.resolve? kind query = none ↔
    ∀ tag ∈ kind.lineage, ∀ handler, ¬ Registered declarations query tag handler
  /-- Without a rule nothing is known, whatever the arguments. -/
  silent : ∀ plan query args, t.resolve? plan.kind query = none → ∀ replies,
    (Provider.table t).consult replies plan ⟨query, args⟩ = .done none
  /-- Arguments of other types than those of the query are refused, and no rule is applied. -/
  refused : ∀ plan query args, t.resolve? plan.kind query ≠ none →
    args.map Arg.type ≠ lastTypes declarations query → ∀ replies,
    (Provider.table t).consult replies plan ⟨query, args⟩
      = .fail (.argumentTypes t.name query (lastTypes declarations query) args)
  /-- With arguments of these types the rule is applied. -/
  applied : ∀ plan query args tag handler, t.resolve? plan.kind query = some (tag, handler) →
    args.map Arg.type = lastTypes declarations query → ∀ replies,
    (Provider.table t).consult replies plan ⟨query, args⟩ = (handler plan args).run replies
  /-- In no run does a rule get arguments that do not have the types of its signature: what it would
  do with them makes no difference. -/
  typed : ∀ other before after (p p' : Provider), p.tables = before ++ t :: after →
    p'.tables = before ++ t.patched other :: after → p'.answerFrom = p.answerFrom

theorem MadeOf.dispatchesBy (h : MadeOf declarations t) : DispatchesBy declarations t where
  resolved query kind tag handler := h.resolve?_eq_some_iff
  unresolved query kind := h.resolve?_eq_none_iff
  silent plan query args hnone replies := by
    rw [Provider.consult, inquiry_of_unresolved hnone, Inquiry.run]
  refused plan query args hsome htypes replies := by
    obtain ⟨found, hfound⟩ := Option.ne_none_iff_exists'.mp hsome
    rw [← h.types] at htypes ⊢
    rw [Provider.consult, inquiry_of_other_types hfound htypes, Inquiry.run]
  applied plan query args tag handler hsome htypes replies := by
    rw [← h.types] at htypes
    rw [Provider.consult, inquiry_of_types hsome htypes]
  typed other before after p p' := t.answerFrom_patched other

/-- **What is registered decides dispatch.** Declarations make a table just if no two rules are
registered for the same query, kind and signature, and are refused with the first rule that is
registered for what another one is. In a table that they make, a request goes to the rule of the
first kind in the operator's lineage that has one with the types last declared for the query, and
only with arguments of these types; the order of the declarations does not matter beyond that. -/
theorem registrations_decide_dispatch (name : String) (declarations : List Declaration) :
    ((∃ t, ofDeclarations name declarations = .ok t) ↔
        ((registrations declarations).map Prod.fst).Nodup) ∧
      (∀ error, ofDeclarations name declarations = .error error →
        ∃ before key handler after, declarations = before ++ .handler key handler :: after ∧
          key ∈ (registrations before).map Prod.fst ∧
          error = .ambiguousHandler key.query key.kind key.signature) ∧
      (∀ t, ofDeclarations name declarations = .ok t →
        t.name = name ∧ DispatchesBy declarations t) ∧
      ∀ others t t', ofDeclarations name declarations = .ok t →
        ofDeclarations name others = .ok t' →
        (∀ key handler, .handler key handler ∈ declarations ↔ .handler key handler ∈ others) →
        lastTypes declarations = lastTypes others → t.resolve? = t'.resolve? := by
  refine ⟨⟨?_, ?_⟩, ?_, ?_, ?_⟩
  · intro haccepted
    obtain ⟨t, ht⟩ := haccepted
    exact (madeOf_ofDeclarations ht).2.nodup
  · intro hnodup
    rcases ofDeclarations_cases name declarations with
      ⟨t, hok, -, -⟩ | ⟨before, key, handler, after, rfl, hkey, -⟩
    · exact ⟨t, hok⟩
    · exact absurd hnodup (not_nodup_registrations hkey)
  · intro error herror
    rcases ofDeclarations_cases name declarations with
      ⟨t, hok, -, -⟩ | ⟨before, key, handler, after, hsplit, hkey, herror'⟩
    · exact absurd (hok.symm.trans herror) (by simp)
    · have heq := Except.error.inj (herror.symm.trans herror')
      exact ⟨before, key, handler, after, hsplit, hkey, heq⟩
  · intro t ht
    obtain ⟨hname, hmade⟩ := madeOf_ofDeclarations ht
    exact ⟨hname, hmade.dispatchesBy⟩
  · intro others t t' ht ht'
    exact (madeOf_ofDeclarations ht).2.resolve?_congr (madeOf_ofDeclarations ht').2

end HandlerTable

/-- Rules for a query, one of them for other argument types than those that the query has in the
end. -/
def overloads : List Declaration :=
  [Reply.nothing.declaration ⟨"rank", .semiJoin, []⟩, .types "rank" [],
    Reply.firstArgument.declaration ⟨"rank", .join, [.bool]⟩, .types "rank" [.bool],
    Reply.allColumns.declaration ⟨"rank", .rel, [.bool]⟩]

/-- The same rules, after the types. -/
def overloadsAfterTypes : List Declaration :=
  [.types "rank" [], .types "rank" [.bool], Reply.allColumns.declaration ⟨"rank", .rel, [.bool]⟩,
    Reply.firstArgument.declaration ⟨"rank", .join, [.bool]⟩,
    Reply.nothing.declaration ⟨"rank", .semiJoin, []⟩]

/-- The rule for semi-joins is for other types, so semi-joins are served by the rule for joins, in
either order of the declarations. -/
theorem registrations_decide_dispatch_overloads :
    ∃ t t', HandlerTable.ofDeclarations "custom" overloads = .ok t ∧
      HandlerTable.ofDeclarations "custom" overloadsAfterTypes = .ok t' ∧
      t.resolve? = t'.resolve? ∧
      t.resolve? .semiJoin "rank" = some (.join, Reply.firstArgument.handler "rank") ∧
      ∀ left right condition replies,
        (Provider.table t).consult replies (.semiJoin left right condition) ⟨"rank", []⟩
          = .fail (.argumentTypes "custom" "rank" [.bool] []) := by
  obtain ⟨haccepted, -, hdispatch, hsame⟩ :=
    HandlerTable.registrations_decide_dispatch "custom" overloads
  obtain ⟨haccepted', -⟩ :=
    HandlerTable.registrations_decide_dispatch "custom" overloadsAfterTypes
  obtain ⟨t, ht⟩ := haccepted.mpr (by decide)
  obtain ⟨t', ht'⟩ := haccepted'.mpr (by decide)
  obtain ⟨hname, h⟩ := hdispatch t ht
  have hresolved : t.resolve? .semiJoin "rank"
      = some (.join, Reply.firstArgument.handler "rank") := by
    refine (h.resolved "rank" .semiJoin .join _).mpr ⟨[.semiJoin], [.rel], rfl, ?_, ?_⟩
    · exact .tail _ (.tail _ (.head _))
    · intro tag htag handler hregistered
      obtain rfl := List.mem_singleton.mp htag
      have htypes : lastTypes overloads "rank" = [.bool] := by decide
      rw [HandlerTable.Registered, htypes] at hregistered
      simp [overloads, Reply.declaration] at hregistered
  have hequal : t.resolve? = t'.resolve? := by
    refine hsame overloadsAfterTypes t t' ht ht' ?_ ?_
    · intro key handler
      simp only [overloads, overloadsAfterTypes, Reply.declaration, List.mem_cons, reduceCtorEq,
        List.not_mem_nil, or_false, false_or]
      constructor
      · intro hrule
        rcases hrule with h | h | h
        · exact .inr (.inr h)
        · exact .inr (.inl h)
        · exact .inl h
      · intro hrule
        rcases hrule with h | h | h
        · exact .inr (.inr h)
        · exact .inr (.inl h)
        · exact .inl h
    · funext query
      simp only [lastTypes, overloads, overloadsAfterTypes, Reply.declaration, List.filterMap_cons,
        List.filterMap_nil, Declaration.typesOf?]
  refine ⟨t, t', ht, ht', hequal, hresolved, fun left right condition replies => ?_⟩
  have hsome : t.resolve? .semiJoin "rank" ≠ none := by rw [hresolved]; exact Option.some_ne_none _
  have hrefused := h.refused (.semiJoin left right condition) "rank" [] hsome (by decide) replies
  rwa [hname] at hrefused

end QueryAnalysis
