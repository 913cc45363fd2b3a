import QueryAnalysis.Scalar.Json
import QueryAnalysis.Proofs.Lists
import QueryAnalysis.Proofs.Range.Order

/-!
# Reading expressions that were written

An expression has one form in JSON (`Scalar.toJson`). It can be written if its doubles are finite
(`Scalar.IsWritable`), and then its form is a JSON value that can occur (`Json.IsProper`).

By induction over the expression the form reads back as the expression (`Scalar.ofJson?_toJson`). A
document is read only if it is not nested too deep. Of what was written nothing is passed over
(`Scalar.readDepth_toJson`), so it is the depth of the form that decides
(`Scalar.ofDocument?_toJson`).
-/

namespace QueryAnalysis

/-! ### JSON values that can occur -/

namespace Json

mutual

/-- Whether a JSON value can occur: its integers are those that a number can be, its doubles are
finite, and no name occurs twice in an object. -/
def IsProper : Json → Prop
  | int value => isInteger value = true
  | float value => value.isFinite = true
  | array elements => AllProper elements
  | object fields => (fields.map Prod.fst).Nodup ∧ FieldsProper fields
  | _ => True

/-- Whether all the values can occur. -/
def AllProper : List Json → Prop
  | [] => True
  | element :: elements => IsProper element ∧ AllProper elements

/-- Whether the values of all the fields can occur. -/
def FieldsProper : List (String × Json) → Prop
  | [] => True
  | (_, value) :: fields => IsProper value ∧ FieldsProper fields

end

theorem isProper_field {name : String} {content : Json} :
    (object [(name, content)]).IsProper ↔ content.IsProper := by
  simp [IsProper, FieldsProper]

theorem isInteger_iff {value : Int} :
    isInteger value = true ↔ Int64.minValue.toInt ≤ value ∧ value < UInt64.size := by
  simp only [isInteger, Bool.and_eq_true, decide_eq_true_iff]

end Json

/-! ### Expressions that can be written -/

/-- Whether a literal can be written: a double must be finite. -/
def Literal.IsWritable : Literal → Prop
  | float value => value.isFinite = true
  | _ => True

namespace Scalar

mutual

/-- Whether an expression can be written: the ordinals of columns and the indices of parameters
have 64 bits, and doubles are finite. -/
def IsWritable : Scalar → Prop
  | column ordinal => ordinal < UInt64.size
  | literal value => value.IsWritable
  | parameter index => index < UInt64.size
  | binary left _ right => left.IsWritable ∧ right.IsWritable
  | isNull operand => operand.IsWritable
  | aggregate _ args _ => AllWritable args
  | call _ args => AllWritable args

/-- Whether all the expressions can be written. -/
def AllWritable : List Scalar → Prop
  | [] => True
  | arg :: args => arg.IsWritable ∧ AllWritable args

end

end Scalar

/-! ### Reading what was written -/

theorem Json.isProper_int_ofNat {n : Nat} (h : n < UInt64.size) : (Json.int n).IsProper := by
  rw [IsProper, isInteger_iff]
  exact ⟨Int.le_trans (by decide) (Int.natCast_nonneg n), by exact_mod_cast h⟩

theorem Json.ordinal?_ofNat {n : Nat} (h : n < UInt64.size) : (Json.int n).ordinal? = some n := by
  rw [ordinal?, if_pos ⟨Int.natCast_nonneg n, by exact_mod_cast h⟩, Int.toNat_natCast]

theorem Literal.isProper_toJson {l : Literal} (h : l.IsWritable) : l.toJson.IsProper := by
  cases l with
  | int value =>
      have hlow := value.le_toInt
      have hhigh := value.toInt_lt
      rw [Literal.toJson, Json.isProper_field, Json.IsProper, Json.isInteger_iff]
      exact ⟨hlow, Int.lt_trans hhigh (by decide)⟩
  | float value =>
      rw [Literal.toJson, Json.isProper_field, Json.IsProper]
      exact h
  | _ => simp [Literal.toJson, Json.IsProper, Json.FieldsProper]

theorem Json.int64?_toInt (value : Int64) : (Json.int value.toInt).int64? = some value := by
  have hlow := value.le_toInt
  have hhigh := value.toInt_lt
  rw [int64?, if_pos ⟨hlow, Int.le_of_lt_add_one hhigh⟩, Int64.ofInt_toInt]

theorem Literal.ofJson?_toJson (l : Literal) : Literal.ofJson? l.toJson = some l := by
  cases l with
  | int value => rw [Literal.toJson, Literal.ofJson?, Json.int64?_toInt, Option.map_some]
  | _ => simp [Literal.toJson, Literal.ofJson?, Json.bool?, Json.double?, Json.string?, Json.name?]

namespace Scalar

theorem lookup_scalarFields (fields : List (String × Json)) (name : String) :
    (scalarFields fields).lookup name = (fields.lookup name).map ofJson? := by
  have hfields : scalarFields fields = fields.map fun field => (field.1, ofJson? field.2) := by
    induction fields with
    | nil => simp [scalarFields]
    | cons field fields ih => simp [scalarFields, ih]
  rw [hfields, lookup_map_snd fun _ value => ofJson? value]

theorem lookup_argumentFields (fields : List (String × Json)) (name : String) :
    (argumentFields fields).lookup name
      = (fields.lookup name).map fun value => value.elements?.bind ofJsonAll? := by
  have hfields : argumentFields fields
      = fields.map fun field => (field.1, field.2.elements?.bind ofJsonAll?) := by
    induction fields with
    | nil => simp [argumentFields]
    | cons field fields ih =>
        obtain ⟨name, value⟩ := field
        cases value <;> simp [argumentFields, ih, Json.elements?]
  rw [hfields]
  exact lookup_map_snd (fun _ value => value.elements?.bind ofJsonAll?) fields name

/-! ### Writing and reading back -/

mutual

/-- What is written is a JSON value that can occur. -/
theorem isProper_toJson {e : Scalar} (h : e.IsWritable) : e.toJson.IsProper := by
  cases e with
  | column ordinal =>
      rw [IsWritable] at h
      rw [toJson, Json.isProper_field]
      exact Json.isProper_int_ofNat h
  | literal value =>
      rw [IsWritable] at h
      rw [toJson, Json.isProper_field]
      exact Literal.isProper_toJson h
  | parameter index =>
      rw [IsWritable] at h
      rw [toJson, Json.isProper_field, Json.isProper_field]
      exact Json.isProper_int_ofNat h
  | binary left op right =>
      rw [IsWritable] at h
      have hleft := isProper_toJson h.1
      have hright := isProper_toJson h.2
      simp [toJson, Json.IsProper, Json.FieldsProper, hleft, hright]
  | isNull operand =>
      rw [IsWritable] at h
      have hoperand := isProper_toJson h
      simp [toJson, Json.IsProper, Json.FieldsProper, hoperand]
  | aggregate function args distinct =>
      rw [IsWritable] at h
      have hargs := allProper_toJsonAll h
      simp [toJson, Json.IsProper, Json.FieldsProper, hargs]
  | call name args =>
      rw [IsWritable] at h
      have hargs := allProper_toJsonAll h
      simp [toJson, Json.IsProper, Json.FieldsProper, hargs]

theorem allProper_toJsonAll {es : List Scalar} (h : AllWritable es) :
    Json.AllProper (toJsonAll es) := by
  cases es with
  | nil => simp [toJsonAll, Json.AllProper]
  | cons e es =>
      rw [AllWritable] at h
      rw [toJsonAll, Json.AllProper]
      exact ⟨isProper_toJson h.1, allProper_toJsonAll h.2⟩

end

mutual

/-- An expression reads back from what is written. -/
theorem ofJson?_toJson {e : Scalar} (h : e.IsWritable) : ofJson? e.toJson = some e := by
  cases e with
  | column ordinal =>
      rw [IsWritable] at h
      rw [toJson, ofJson?, Json.ordinal?_ofNat h, Option.map_some]
  | literal value => rw [toJson, ofJson?, Literal.ofJson?_toJson, Option.map_some]
  | parameter index =>
      rw [IsWritable] at h
      rw [toJson, ofJson?, Json.parameterIndex?, List.lookup_cons_self, Option.bind_some,
        Json.ordinal?_ofNat h, Option.map_some]
  | binary left op right =>
      rw [IsWritable] at h
      have hleft := ofJson?_toJson h.1
      have hright := ofJson?_toJson h.2
      simp [toJson, ofJson?, lookup_scalarFields, List.lookup_cons, Json.name?, hleft, hright]
  | isNull operand =>
      rw [IsWritable] at h
      have hoperand := ofJson?_toJson h
      simp [toJson, ofJson?, lookup_scalarFields, List.lookup_cons, Json.name?, hoperand]
  | aggregate function args distinct =>
      rw [IsWritable] at h
      have hargs := ofJsonAll?_toJsonAll h
      simp [toJson, ofJson?, lookup_argumentFields, List.lookup_cons, Json.elements?, Json.name?,
        Json.bool?, hargs]
  | call name args =>
      rw [IsWritable] at h
      have hargs := ofJsonAll?_toJsonAll h
      simp [toJson, ofJson?, lookup_argumentFields, List.lookup_cons, Json.elements?, Json.string?,
        hargs]

theorem ofJsonAll?_toJsonAll {es : List Scalar} (h : AllWritable es) :
    ofJsonAll? (toJsonAll es) = some es := by
  cases es with
  | nil => rw [toJsonAll, ofJsonAll?]
  | cons e es =>
      rw [AllWritable] at h
      simp [toJsonAll, ofJsonAll?, ofJson?_toJson h.1, ofJsonAll?_toJsonAll h.2]

end

/-! ### Nesting -/

theorem depth_toJson_column (ordinal : Nat) : (toJson (.column ordinal)).depth = 1 := by
  simp [toJson, Json.depth, Json.depthOfFields]

theorem depth_toJson_literal (value : Literal) :
    (toJson (.literal value)).depth = value.toJson.depth + 1 := by
  simp [toJson, Json.depth, Json.depthOfFields]

theorem depth_toJson_parameter (index : Nat) : (toJson (.parameter index)).depth = 2 := by
  simp [toJson, Json.depth, Json.depthOfFields]

theorem depth_toJson_binary (left : Scalar) (op : BinaryOperator) (right : Scalar) :
    (toJson (.binary left op right)).depth = max left.toJson.depth right.toJson.depth + 2 := by
  simp [toJson, Json.depth, Json.depthOfFields]

theorem depth_toJson_isNull (operand : Scalar) :
    (toJson (.isNull operand)).depth = operand.toJson.depth + 2 := by
  simp [toJson, Json.depth, Json.depthOfFields]

theorem depth_toJson_aggregate (function : AggregateFunction) (args : List Scalar)
    (distinct : Bool) :
    (toJson (.aggregate function args distinct)).depth
      = Json.depthOfElements (toJsonAll args) + 3 := by
  simp [toJson, Json.depth, Json.depthOfFields]

theorem depth_toJson_call (name : String) (args : List Scalar) :
    (toJson (.call name args)).depth = Json.depthOfElements (toJsonAll args) + 3 := by
  simp [toJson, Json.depth, Json.depthOfFields]

mutual

/-- Nothing is passed over in what was written. -/
theorem readDepth_toJson (e : Scalar) : readDepth e.toJson = e.toJson.depth := by
  cases e with
  | column ordinal =>
      rw [depth_toJson_column]
      simp [toJson, readDepth]
  | literal value =>
      rw [depth_toJson_literal]
      cases value <;>
        simp [toJson, Literal.toJson, readDepth, readDepthOfFields, Json.depth, Json.depthOfFields]
  | parameter index =>
      rw [depth_toJson_parameter]
      simp [toJson, readDepth, readDepthOfFields]
  | binary left op right =>
      rw [depth_toJson_binary, ← readDepth_toJson left, ← readDepth_toJson right]
      simp [toJson, readDepth, readDepthOfFields, readsField]
  | isNull operand =>
      rw [depth_toJson_isNull, ← readDepth_toJson operand]
      simp [toJson, readDepth, readDepthOfFields, readsField]
  | aggregate function args distinct =>
      rw [depth_toJson_aggregate, ← readDepthOfElements_toJsonAll args]
      simp [toJson, readDepth, readDepthOfFields, readsField]
  | call name args =>
      rw [depth_toJson_call, ← readDepthOfElements_toJsonAll args]
      simp [toJson, readDepth, readDepthOfFields, readsField]

theorem readDepthOfElements_toJsonAll (es : List Scalar) :
    readDepthOfElements (toJsonAll es) = Json.depthOfElements (toJsonAll es) := by
  cases es with
  | nil => rfl
  | cons e es =>
      rw [toJsonAll, readDepthOfElements, Json.depthOfElements, readDepth_toJson,
        readDepthOfElements_toJsonAll]

end

/-- What is written can be read as a document unless it reaches the limit. -/
theorem ofDocument?_toJson {e : Scalar} (h : e.IsWritable) :
    ofDocument? e.toJson = if e.toJson.depth < nestingLimit then some e else none := by
  rw [ofDocument?, readDepth_toJson, ofJson?_toJson h]

end Scalar

end QueryAnalysis
