import QueryAnalysis.Proofs.Scalar.Writing

/-!
# Nothing is lost in the JSON form of an expression

An expression is written in one way and read from many: fields may stand in any order and among
others, or without their names, and an integer may stand for a double. `Scalar.json_form_faithful`
says that all of this comes to the same: what is written reads back as the expression, unless it is
nested too deep to be read at all, and an expression that was read, in whichever form, is written and
read back without a change.

The second half needs to know only what an expression that was read is made of. `Scalar.IsForm` says
so, with one constructor for each kind of expression, and does not tell the ways of writing a kind
apart; reading is taken apart once, in `Scalar.isForm_of_ofJson?`. That an expression from JSON can
be written again (`IsForm.isWritable`), and not deeper than it was read (`IsForm.depth_le`), are
inductions over it.
-/

namespace QueryAnalysis

/-! ### What is read -/

namespace Json

/-- The values that stand directly in an array or in an object. -/
def parts : Json → List Json
  | array elements => elements
  | object fields => fields.map Prod.snd
  | _ => []

theorem AllProper.mem {elements : List Json} (h : AllProper elements) :
    ∀ element ∈ elements, element.IsProper := by
  induction elements with
  | nil => exact fun _ helement => absurd helement List.not_mem_nil
  | cons element elements ih =>
      rw [AllProper] at h
      exact List.forall_mem_cons.mpr ⟨h.1, ih h.2⟩

theorem FieldsProper.mem {fields : List (String × Json)} (h : FieldsProper fields) :
    ∀ value ∈ fields.map Prod.snd, value.IsProper := by
  induction fields with
  | nil => exact fun _ hvalue => absurd hvalue List.not_mem_nil
  | cons field fields ih =>
      rw [FieldsProper] at h
      exact List.forall_mem_cons.mpr ⟨h.1, ih h.2⟩

theorem IsProper.part {j part : Json} (h : j.IsProper) (hpart : part ∈ j.parts) :
    part.IsProper := by
  cases j with
  | array elements =>
      rw [IsProper] at h
      exact h.mem part hpart
  | object fields =>
      rw [IsProper] at h
      exact h.2.mem part hpart
  | _ => exact absurd hpart List.not_mem_nil

end Json

namespace Scalar

/-- The parts of a kind's content that are read: all of an array, the fields of the kind in an
object. -/
def readParts (kind : String) : Json → List Json
  | .array elements => elements
  | .object fields => (fields.filter fun field => readsField kind field.1).map Prod.snd
  | _ => []

theorem mem_parts_of_mem_readParts {kind : String} {content part : Json}
    (h : part ∈ readParts kind content) : part ∈ content.parts := by
  cases content with
  | array elements => exact h
  | object fields => exact List.map_subset _ (List.filter_subset_self _) h
  | _ => exact absurd h List.not_mem_nil

theorem isProper_of_mem_readParts {kind : String} {content part : Json}
    (h : (Json.object [(kind, content)]).IsProper) (hpart : part ∈ readParts kind content) :
    part.IsProper :=
  (Json.isProper_field.mp h).part (mem_parts_of_mem_readParts hpart)

theorem le_readDepthOfElements {elements : List Json} :
    ∀ element ∈ elements, readDepth element ≤ readDepthOfElements elements := by
  induction elements with
  | nil => exact fun _ helement => absurd helement List.not_mem_nil
  | cons element elements ih =>
      rw [readDepthOfElements]
      refine List.forall_mem_cons.mpr ⟨Nat.le_max_left _ _, fun other hother => ?_⟩
      exact Nat.le_trans (ih other hother) (Nat.le_max_right _ _)

theorem le_readDepthOfFields {kind : String} {fields : List (String × Json)} :
    ∀ part ∈ readParts kind (.object fields), readDepth part ≤ readDepthOfFields kind fields := by
  induction fields with
  | nil => exact fun _ hpart => absurd hpart List.not_mem_nil
  | cons field fields ih =>
      intro part hpart
      rw [readDepthOfFields]
      rw [readParts, List.filter_cons] at hpart
      split at hpart
      case isTrue hreads =>
        rw [if_pos hreads]
        obtain rfl | hpart := List.mem_cons.mp hpart
        · exact Nat.le_max_left _ _
        · exact Nat.le_trans (ih part hpart) (Nat.le_max_right _ _)
      case isFalse => exact Nat.le_trans (ih part hpart) (Nat.le_max_right _ _)

/-- A part that is read stands two arrays or objects deeper than the whole. -/
theorem readDepth_of_mem_readParts {kind : String} {content part : Json}
    (h : part ∈ readParts kind content) :
    readDepth part + 2 ≤ readDepth (.object [(kind, content)]) := by
  cases content with
  | array elements =>
      rw [readDepth]
      exact Nat.add_le_add_right (le_readDepthOfElements part h) 2
  | object fields =>
      rw [readDepth]
      exact Nat.add_le_add_right (le_readDepthOfFields part h) 2
  | _ => exact absurd h List.not_mem_nil

mutual

/-- What is known of a JSON value and the expression that was read from it: the field that names
the kind, and that the operands were read from parts of its content. -/
inductive IsForm : Json → Scalar → Prop
  | column {value : Json} {ordinal : Nat} (h : value.ordinal? = some ordinal) :
      IsForm (.object [("InputRef", value)]) (.column ordinal)
  | literal {value : Json} {read : Literal} (h : Literal.ofJson? value = some read) :
      IsForm (.object [("Literal", value)]) (.literal read)
  | parameter {value : Json} {index : Nat} (h : value.parameterIndex? = some index) :
      IsForm (.object [("DynamicParam", value)]) (.parameter index)
  | binary {content l r : Json} {left right : Scalar} (op : BinaryOperator)
      (hl : l ∈ readParts "BinaryOp" content) (hr : r ∈ readParts "BinaryOp" content)
      (hleft : IsForm l left) (hright : IsForm r right) :
      IsForm (.object [("BinaryOp", content)]) (.binary left op right)
  | isNull {content part : Json} {operand : Scalar} (hpart : part ∈ readParts "UnaryOp" content)
      (h : IsForm part operand) : IsForm (.object [("UnaryOp", content)]) (.isNull operand)
  | aggregate {content : Json} {values : List Json} {args : List Scalar}
      (function : AggregateFunction) (distinct : Bool)
      (hvalues : .array values ∈ readParts "AggFunc" content)
      (h : AreForms values args) :
      IsForm (.object [("AggFunc", content)]) (.aggregate function args distinct)
  | call {content : Json} {values : List Json} {args : List Scalar} (name : String)
      (hvalues : .array values ∈ readParts "Function" content) (h : AreForms values args) :
      IsForm (.object [("Function", content)]) (.call name args)

/-- The same of several values and the expressions that were read from them. -/
inductive AreForms : List Json → List Scalar → Prop
  | nil : AreForms [] []
  | cons {value : Json} {values : List Json} {arg : Scalar} {args : List Scalar}
      (h : IsForm value arg) (hs : AreForms values args) : AreForms (value :: values) (arg :: args)

end

/-- The content of a field of the kind is a part that is read. -/
theorem mem_readParts_of_lookup {kind name : String} {fields : List (String × Json)} {value : Json}
    (hname : readsField kind name = true) (h : fields.lookup name = some value) :
    value ∈ readParts kind (.object fields) := by
  obtain ⟨before, after, rfl, -⟩ := List.lookup_eq_some_iff.mp h
  have hfield : (name, value) ∈ before ++ (name, value) :: after :=
    List.mem_append_right before List.mem_cons_self
  exact List.mem_map_of_mem (List.mem_filter.mpr ⟨hfield, hname⟩)

theorem exists_of_scalarFields (kind : String) {name : String} {fields : List (String × Json)}
    {e : Scalar} (hname : readsField kind name = true)
    (h : (scalarFields fields).lookup name = some (some e)) :
    ∃ part ∈ readParts kind (.object fields), ofJson? part = some e := by
  rw [lookup_scalarFields] at h
  obtain ⟨part, hpart, hread⟩ := Option.map_eq_some_iff.mp h
  exact ⟨part, mem_readParts_of_lookup hname hpart, hread⟩

theorem exists_of_argumentFields (kind : String) {name : String} {fields : List (String × Json)}
    {args : List Scalar} (hname : readsField kind name = true)
    (h : (argumentFields fields).lookup name = some (some args)) :
    ∃ values, .array values ∈ readParts kind (.object fields) ∧ ofJsonAll? values = some args := by
  rw [lookup_argumentFields] at h
  obtain ⟨part, hpart, hread⟩ := Option.map_eq_some_iff.mp h
  obtain ⟨values, hvalues, hread⟩ := Option.bind_eq_some_iff.mp hread
  cases part with
  | array elements =>
      obtain rfl := Option.some.inj hvalues
      exact ⟨elements, mem_readParts_of_lookup hname hpart, hread⟩
  | _ => exact absurd hvalues (by simp [Json.elements?])

/-- Reading, taken apart. The induction is on the recursion of `ofJson?`: every kind of expression
has a case for an object and a case for an array, and the fields of an object are gone through. -/
theorem isForm_of_ofJson? : ∀ j e, ofJson? j = some e → IsForm j e := by
  refine ofJson?.induct (fun j => ∀ e, ofJson? j = some e → IsForm j e)
    (fun values => ∀ args, ofJsonAll? values = some args → AreForms values args)
    (fun fields => ∀ values, .array values ∈ (Json.object fields).parts →
      ∀ args, ofJsonAll? values = some args → AreForms values args)
    (fun fields => ∀ part ∈ (Json.object fields).parts,
      ∀ e, ofJson? part = some e → IsForm part e)
    ?column ?literal ?parameter ?binaryFields ?binaryElements ?isNullFields ?isNullElements
    ?aggregateFields ?aggregateElements ?callFields ?callElements ?other ?noArgs ?args
    ?noLists ?lists ?otherLists ?noOperands ?operands
  case column =>
    intro value e h
    rw [ofJson?] at h
    obtain ⟨ordinal, hordinal, rfl⟩ := Option.map_eq_some_iff.mp h
    exact .column hordinal
  case literal =>
    intro value e h
    rw [ofJson?] at h
    obtain ⟨l, hl, rfl⟩ := Option.map_eq_some_iff.mp h
    exact .literal hl
  case parameter =>
    intro value e h
    rw [ofJson?] at h
    obtain ⟨index, hindex, rfl⟩ := Option.map_eq_some_iff.mp h
    exact .parameter hindex
  case binaryFields =>
    intro fields ih e h
    simp only [ofJson?, Option.bind_eq_bind, Option.bind_eq_some_iff, Option.some.injEq, id_eq,
      exists_eq_right] at h
    obtain ⟨left, hleft, op, -, right, hright, rfl⟩ := h
    obtain ⟨l, hl, hleft⟩ := exists_of_scalarFields "BinaryOp" rfl hleft
    obtain ⟨r, hr, hright⟩ := exists_of_scalarFields "BinaryOp" rfl hright
    exact .binary op hl hr (ih l (mem_parts_of_mem_readParts hl) left hleft)
      (ih r (mem_parts_of_mem_readParts hr) right hright)
  case binaryElements =>
    intro l op r ihl ihr e h
    simp only [ofJson?, Option.bind_eq_bind, Option.bind_eq_some_iff, Option.some.injEq] at h
    obtain ⟨left, hleft, op, -, right, hright, rfl⟩ := h
    exact .binary op (by simp [readParts]) (by simp [readParts]) (ihl left hleft)
      (ihr right hright)
  case isNullFields =>
    intro fields ih e h
    simp only [ofJson?, Option.bind_eq_bind, Option.bind_eq_some_iff, Option.some.injEq, id_eq,
      exists_eq_right, Option.ite_none_right_eq_some] at h
    obtain ⟨op, -, operand, hoperand, -, rfl⟩ := h
    obtain ⟨part, hpart, hread⟩ := exists_of_scalarFields "UnaryOp" rfl hoperand
    exact .isNull hpart (ih part (mem_parts_of_mem_readParts hpart) operand hread)
  case isNullElements =>
    intro op part ih e h
    simp only [ofJson?, Option.bind_eq_bind, Option.bind_eq_some_iff, Option.some.injEq,
      Option.ite_none_right_eq_some] at h
    obtain ⟨op, -, operand, hread, -, rfl⟩ := h
    exact .isNull (by simp [readParts]) (ih operand hread)
  case aggregateFields =>
    intro fields ih e h
    simp only [ofJson?, Option.bind_eq_bind, Option.bind_eq_some_iff, Option.some.injEq, id_eq,
      exists_eq_right] at h
    obtain ⟨function, -, args, hargs, distinct, -, rfl⟩ := h
    obtain ⟨values, hvalues, hread⟩ := exists_of_argumentFields "AggFunc" rfl hargs
    exact .aggregate function distinct hvalues
      (ih values (mem_parts_of_mem_readParts hvalues) args hread)
  case aggregateElements =>
    intro function values distinct ih e h
    simp only [ofJson?, Option.bind_eq_bind, Option.bind_eq_some_iff, Option.some.injEq] at h
    obtain ⟨function, -, args, hread, distinct, -, rfl⟩ := h
    exact .aggregate function distinct (by simp [readParts]) (ih args hread)
  case callFields =>
    intro fields ih e h
    simp only [ofJson?, Option.bind_eq_bind, Option.bind_eq_some_iff, Option.some.injEq, id_eq,
      exists_eq_right] at h
    obtain ⟨name, -, args, hargs, rfl⟩ := h
    obtain ⟨values, hvalues, hread⟩ := exists_of_argumentFields "Function" rfl hargs
    exact .call name hvalues (ih values (mem_parts_of_mem_readParts hvalues) args hread)
  case callElements =>
    intro name values ih e h
    simp only [ofJson?, Option.bind_eq_bind, Option.bind_eq_some_iff, Option.some.injEq] at h
    obtain ⟨name, -, args, hread, rfl⟩ := h
    exact .call name (by simp [readParts]) (ih args hread)
  case other =>
    intro j _ _ _ _ _ _ _ _ _ _ _ e h
    have hnone : ofJson? j = none := by
      rw [ofJson?]
      all_goals assumption
    exact absurd h (by simp [hnone])
  case noArgs =>
    intro args h
    rw [ofJsonAll?] at h
    obtain rfl := Option.some.inj h
    exact .nil
  case args =>
    intro value values ih ihs args h
    simp only [ofJsonAll?, Option.bind_eq_bind, Option.bind_eq_some_iff, Option.some.injEq] at h
    obtain ⟨arg, harg, rest, hrest, rfl⟩ := h
    exact .cons (ih arg harg) (ihs rest hrest)
  case noLists => exact fun values hvalues => absurd hvalues List.not_mem_nil
  case lists =>
    intro name list fields ih ihs values hvalues
    obtain hvalues | hvalues := List.mem_cons.mp hvalues
    · obtain rfl := Json.array.inj hvalues
      exact ih
    · exact ihs values hvalues
  case otherLists =>
    intro name value fields hother ihs values hvalues
    obtain hvalues | hvalues := List.mem_cons.mp hvalues
    · exact absurd hvalues.symm (hother values)
    · exact ihs values hvalues
  case noOperands => exact fun part hpart => absurd hpart List.not_mem_nil
  case operands => exact fun name value fields ih ihs => List.forall_mem_cons.mpr ⟨ih, ihs⟩

end Scalar

/-! ### Writing what was read -/

namespace Json

theorem lt_of_ordinal? {j : Json} {n : Nat} (h : j.ordinal? = some n) : n < UInt64.size := by
  cases j with
  | int value =>
      rw [ordinal?] at h
      split at h
      case isTrue hvalue =>
        obtain rfl := Option.some.inj h
        exact (Int.toNat_lt hvalue.1).mpr hvalue.2
      case isFalse => exact absurd h (by simp)
  | _ => exact absurd h (by simp [ordinal?])

theorem lt_of_parameterIndex? {j : Json} {n : Nat} (h : j.parameterIndex? = some n) :
    n < UInt64.size := by
  unfold parameterIndex? at h
  split at h
  · exact lt_of_ordinal? h
  · obtain ⟨index, -, hindex⟩ := Option.bind_eq_some_iff.mp h
    exact lt_of_ordinal? hindex
  · exact absurd h (by simp)

/-- A double read from a number that can occur is finite, also if the number is an integer. -/
theorem IsProper.isFinite_double? {j : Json} {d : Double} (h : j.IsProper)
    (hd : j.double? = some d) : d.isFinite = true := by
  cases j with
  | int value =>
      obtain rfl := Option.some.inj hd
      rw [IsProper, isInteger_iff] at h
      have hlow : (-2 ^ 63 : Int) ≤ value := h.1
      have hhigh : value < 2 ^ 64 := h.2
      exact Double.isFinite_ofInt_of_lt (by omega)
  | float value =>
      obtain rfl := Option.some.inj hd
      rwa [IsProper] at h
  | _ => exact absurd hd (by simp [double?])

end Json

theorem Literal.isWritable_of_ofJson? {j : Json} (hj : j.IsProper) {l : Literal}
    (h : Literal.ofJson? j = some l) : l.IsWritable := by
  unfold Literal.ofJson? at h
  split at h
  case h_3 value =>
    obtain ⟨d, hd, rfl⟩ := Option.map_eq_some_iff.mp h
    exact (Json.isProper_field.mp hj).isFinite_double? hd
  case h_5 =>
    obtain ⟨-, h⟩ := Option.ite_none_right_eq_some.mp h
    obtain rfl := Option.some.inj h
    trivial
  all_goals
    obtain ⟨value, -, rfl⟩ := Option.map_eq_some_iff.mp h
    trivial

namespace Scalar

mutual

/-- What was read from a JSON value that can occur can be written. -/
theorem IsForm.isWritable {j : Json} {e : Scalar} (h : IsForm j e) (hj : j.IsProper) :
    e.IsWritable := by
  cases h with
  | column h =>
      rw [IsWritable]
      exact Json.lt_of_ordinal? h
  | literal h =>
      rw [IsWritable]
      exact Literal.isWritable_of_ofJson? (Json.isProper_field.mp hj) h
  | parameter h =>
      rw [IsWritable]
      exact Json.lt_of_parameterIndex? h
  | binary op hl hr hleft hright =>
      rw [IsWritable]
      exact ⟨hleft.isWritable (isProper_of_mem_readParts hj hl),
        hright.isWritable (isProper_of_mem_readParts hj hr)⟩
  | isNull hpart h =>
      rw [IsWritable]
      exact h.isWritable (isProper_of_mem_readParts hj hpart)
  | aggregate function distinct hvalues h =>
      rw [IsWritable]
      exact h.allWritable (isProper_of_mem_readParts hj hvalues)
  | call name hvalues h =>
      rw [IsWritable]
      exact h.allWritable (isProper_of_mem_readParts hj hvalues)

theorem AreForms.allWritable {values : List Json} {args : List Scalar} (h : AreForms values args)
    (hvalues : (Json.array values).IsProper) : AllWritable args := by
  cases h with
  | nil => simp [AllWritable]
  | cons h hs =>
      rw [Json.IsProper, Json.AllProper] at hvalues
      rw [AllWritable]
      exact ⟨h.isWritable hvalues.1, hs.allWritable (by rw [Json.IsProper]; exact hvalues.2)⟩

end

/-! ### Nesting -/

theorem readDepth_content_pos (kind : String) (content : Json) :
    0 < readDepth (.object [(kind, content)]) := by
  cases content <;> simp [readDepth]

/-- A literal is not written deeper than it was read. -/
theorem depth_literal_le {value : Json} {read : Literal} (h : Literal.ofJson? value = some read) :
    read.toJson.depth + 1 ≤ readDepth (.object [("Literal", value)]) := by
  cases value with
  | object fields =>
      have hread : read.toJson.depth ≤ 1 := by
        cases read <;> simp [Literal.toJson, Json.depth, Json.depthOfFields]
      rw [readDepth]
      omega
  | string name =>
      obtain ⟨-, h⟩ := Option.ite_none_right_eq_some.mp h
      obtain rfl := Option.some.inj h
      exact readDepth_content_pos _ _
  | _ => exact absurd h (by simp [Literal.ofJson?, Json.name?])

/-- The content of a parameter is an array or an object. -/
theorem two_le_readDepth_of_parameterIndex? {kind : String} {content : Json} {index : Nat}
    (h : content.parameterIndex? = some index) : 2 ≤ readDepth (.object [(kind, content)]) := by
  cases content with
  | array elements => simp [readDepth]
  | object fields => simp [readDepth]
  | _ => exact absurd h (by simp [Json.parameterIndex?])

mutual

/-- An expression is not written deeper than it was read. -/
theorem IsForm.depth_le {j : Json} {e : Scalar} (h : IsForm j e) :
    e.toJson.depth ≤ readDepth j := by
  cases h with
  | column h =>
      rw [depth_toJson_column]
      exact readDepth_content_pos _ _
  | literal h =>
      rw [depth_toJson_literal]
      exact depth_literal_le h
  | parameter h =>
      rw [depth_toJson_parameter]
      exact two_le_readDepth_of_parameterIndex? h
  | binary op hl hr hleft hright =>
      have hl := readDepth_of_mem_readParts hl
      have hr := readDepth_of_mem_readParts hr
      have := hleft.depth_le
      have := hright.depth_le
      rw [depth_toJson_binary]
      omega
  | isNull hpart h =>
      have hpart := readDepth_of_mem_readParts hpart
      have := h.depth_le
      rw [depth_toJson_isNull]
      omega
  | aggregate function distinct hvalues h =>
      have hvalues := readDepth_of_mem_readParts hvalues
      have := h.depth_le
      rw [readDepth] at hvalues
      rw [depth_toJson_aggregate]
      omega
  | call name hvalues h =>
      have hvalues := readDepth_of_mem_readParts hvalues
      have := h.depth_le
      rw [readDepth] at hvalues
      rw [depth_toJson_call]
      omega

theorem AreForms.depth_le {values : List Json} {args : List Scalar} (h : AreForms values args) :
    Json.depthOfElements (toJsonAll args) ≤ readDepthOfElements values := by
  cases h with
  | nil => exact Nat.le_refl _
  | cons h hs =>
      rw [toJsonAll, Json.depthOfElements, readDepthOfElements]
      exact max_le_max h.depth_le hs.depth_le

end

/-- **Nothing is lost in the JSON form of an expression.** An expression whose doubles are finite is
written as a JSON value that can occur, of whatever shape the expression is. The value reads back as
the expression if it is nested less deep than the limit, and is refused otherwise. And an expression
that was read from a document, in whichever of the accepted forms, is written and read back as the
same expression, so that the limit refuses nothing that it once let through. -/
theorem json_form_faithful :
    (∀ e : Scalar, e.IsWritable →
        e.toJson.IsProper ∧
          ofDocument? e.toJson = if e.toJson.depth < nestingLimit then some e else none) ∧
      ∀ (j : Json) (e : Scalar), j.IsProper → ofDocument? j = some e →
        e.toJson.IsProper ∧ ofDocument? e.toJson = some e := by
  refine ⟨fun e h => ⟨isProper_toJson h, ofDocument?_toJson h⟩, fun j e hj h => ?_⟩
  obtain ⟨hdepth, hread⟩ := Option.ite_none_right_eq_some.mp h
  have hform : IsForm j e := isForm_of_ofJson? j e hread
  have hwritable : e.IsWritable := hform.isWritable hj
  have hwritten : e.toJson.depth < nestingLimit := Nat.lt_of_le_of_lt hform.depth_le hdepth
  exact ⟨isProper_toJson hwritable, by rw [ofDocument?_toJson hwritable, if_pos hwritten]⟩

/-- A comparison with three, read from a form without names and with an integer for the double. -/
theorem json_form_faithful_belowThree :
    let e : Scalar := .binary (.column 0) .lt (.literal (.float (Double.ofInt 3)))
    let j : Json := .object [("BinaryOp", .array [.object [("InputRef", .int 0)],
      .object [("Lt", .null)], .object [("Literal", .object [("Float", .int 3)])]])]
    (e.IsWritable ∧ e.toJson.IsProper ∧ e.toJson.depth = 4 ∧ ofDocument? e.toJson = some e) ∧
      j.IsProper ∧ ofDocument? j = some e ∧ ofDocument? e.toJson = some e := by
  intro e j
  have he : e.IsWritable := by
    simp only [e, IsWritable, Literal.IsWritable]
    exact ⟨by decide, Double.isFinite_ofInt_of_lt (by decide)⟩
  have hdepth : e.toJson.depth = 4 := by decide
  have hj : j.IsProper := by
    simp [j, Json.IsProper, Json.AllProper, Json.FieldsProper, Json.isInteger]
  have hread : ofDocument? j = some e := by
    have hop : BinaryOperator.ofName? "Lt" = some .lt := BinaryOperator.ofName?_name .lt
    simp [ofDocument?, readDepth, readDepthOfElements, readDepthOfFields, readsField, nestingLimit,
      j, e, ofJson?, Literal.ofJson?, Json.ordinal?, Json.double?, Json.name?, hop]
  obtain ⟨hproper, hback⟩ := json_form_faithful.1 e he
  rw [hdepth, if_pos (by decide)] at hback
  exact ⟨⟨he, hproper, hdepth, hback⟩, hj, hread, (json_form_faithful.2 j e hj hread).2⟩

/-- A parameter that is tested for null, the test again, and so on. -/
def nullTests : Nat → Scalar
  | 0 => .parameter 0
  | n + 1 => .isNull (nullTests n)

theorem isWritable_nullTests (n : Nat) : (nullTests n).IsWritable := by
  induction n with
  | zero =>
      rw [nullTests, IsWritable]
      decide
  | succ n ih => rwa [nullTests, IsWritable]

/-- Each test adds two objects. -/
theorem depth_toJson_nullTests (n : Nat) : (nullTests n).toJson.depth = 2 * n + 2 := by
  induction n with
  | zero => rfl
  | succ n ih =>
      rw [nullTests, depth_toJson_isNull, ih]
      omega

/-- Not every expression reads back: sixty-three tests are nested 128 deep. -/
theorem refused_nullTests :
    (nullTests 63).IsWritable ∧ (nullTests 63).toJson.depth = 128 ∧
      ofDocument? (nullTests 63).toJson = none := by
  have hdepth : (nullTests 63).toJson.depth = 128 := depth_toJson_nullTests 63
  refine ⟨isWritable_nullTests 63, hdepth, ?_⟩
  rw [ofDocument?_toJson (isWritable_nullTests 63), hdepth]
  rfl

end Scalar

end QueryAnalysis
