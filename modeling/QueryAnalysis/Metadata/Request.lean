import QueryAnalysis.Columns

/-!
# Requests for metadata

A `Request` asks a named question about one operator of a plan, with arguments. An `Answer` is what
a provider knows in reply. Two questions have names of their own here, the unique keys of an
operator and the uniqueness of some of its columns; others can be added by registering rules for
their names.
-/

namespace QueryAnalysis

/-! ### Sets of keys -/

/-- A finite set of column sets, each of them listed once. -/
structure KeySet where
  keys : List ColumnSet
  /-- No key is listed twice, so the number of keys is the length of the list. -/
  nodup : keys.Nodup
deriving DecidableEq

namespace KeySet

instance : Membership ColumnSet KeySet where
  mem s key := key ∈ s.keys

instance (key : ColumnSet) (s : KeySet) : Decidable (key ∈ s) :=
  inferInstanceAs (Decidable (key ∈ s.keys))

/-- The set without keys. -/
def empty : KeySet := ⟨[], List.nodup_nil⟩

instance : EmptyCollection KeySet := ⟨empty⟩

/-- Adds a key. -/
def insert (s : KeySet) (key : ColumnSet) : KeySet :=
  if h : key ∈ s.keys then s else ⟨key :: s.keys, List.nodup_cons.2 ⟨h, s.nodup⟩⟩

/-- The set of the listed keys, however often they are listed. -/
def ofList (keys : List ColumnSet) : KeySet :=
  keys.foldl insert empty

/-- The set of one key. -/
def singleton (key : ColumnSet) : KeySet :=
  ⟨[key], by simp⟩

/-- The keys that are in either set. -/
def union (s t : KeySet) : KeySet :=
  t.keys.foldl insert s

/-- The number of keys. -/
def size (s : KeySet) : Nat :=
  s.keys.length

/-- What a function makes of the keys. -/
def map (f : ColumnSet → ColumnSet) (s : KeySet) : KeySet :=
  ofList (s.keys.map f)

/-- What a function makes of the keys on which it is defined. -/
def filterMap (f : ColumnSet → Option ColumnSet) (s : KeySet) : KeySet :=
  ofList (s.keys.filterMap f)

/-- Whether some key lies within the given columns. -/
def covers (s : KeySet) (columns : ColumnSet) : Bool :=
  s.keys.any fun key => key.isSubset columns

theorem mem_iff {key : ColumnSet} {s : KeySet} : key ∈ s ↔ key ∈ s.keys := Iff.rfl

@[simp] theorem not_mem_empty (key : ColumnSet) : key ∉ empty := by
  simp [mem_iff, empty]

@[simp] theorem mem_insert {s : KeySet} {k key : ColumnSet} :
    key ∈ s.insert k ↔ key = k ∨ key ∈ s := by
  unfold insert
  split
  · next h =>
    constructor
    · exact Or.inr
    · rintro (rfl | h')
      · exact h
      · exact h'
  · simp [mem_iff]

theorem mem_foldl_insert {keys : List ColumnSet} {s : KeySet} {key : ColumnSet} :
    key ∈ keys.foldl insert s ↔ key ∈ keys ∨ key ∈ s := by
  induction keys generalizing s with
  | nil => simp
  | cons k keys ih =>
    rw [List.foldl_cons, ih, mem_insert, List.mem_cons, ← or_assoc, or_comm (a := key ∈ keys)]

@[simp] theorem mem_ofList {keys : List ColumnSet} {key : ColumnSet} :
    key ∈ ofList keys ↔ key ∈ keys := by
  simp [ofList, mem_foldl_insert]

@[simp] theorem mem_singleton {k key : ColumnSet} : key ∈ singleton k ↔ key = k := by
  simp [singleton, mem_iff]

@[simp] theorem mem_union {s t : KeySet} {key : ColumnSet} :
    key ∈ s.union t ↔ key ∈ s ∨ key ∈ t := by
  rw [union, mem_foldl_insert, or_comm]
  rfl

@[simp] theorem mem_map {f : ColumnSet → ColumnSet} {s : KeySet} {key : ColumnSet} :
    key ∈ s.map f ↔ ∃ k, k ∈ s ∧ f k = key := by
  simp [map, mem_iff (s := s)]

@[simp] theorem mem_filterMap {f : ColumnSet → Option ColumnSet} {s : KeySet} {key : ColumnSet} :
    key ∈ s.filterMap f ↔ ∃ k, k ∈ s ∧ f k = some key := by
  simp [filterMap, mem_iff (s := s)]

@[simp] theorem covers_eq_true_iff {s : KeySet} {columns : ColumnSet} :
    s.covers columns = true ↔ ∃ key, key ∈ s ∧ key.isSubset columns = true := by
  simp [covers, mem_iff]

end KeySet

/-! ### Arguments and answers -/

/-- The type of an argument. -/
inductive ArgType where
  | bool
  | columns
deriving DecidableEq

/-- An argument of a request. -/
inductive Arg where
  | bool (value : Bool)
  | columns (value : ColumnSet)
deriving DecidableEq

/-- What a provider knows in reply to a request. -/
inductive Answer where
  | keys (value : KeySet)
  | bool (value : Bool)
deriving DecidableEq

namespace ArgType

/-- An argument type as error messages show it. -/
def text : ArgType → String
  | bool => "Bool"
  | columns => "ColumnMask"

/-- A list of argument types as error messages show it. -/
def listText (types : List ArgType) : String :=
  "[" ++ ", ".intercalate (types.map text) ++ "]"

end ArgType

namespace Arg

/-- The type of an argument. -/
def type : Arg → ArgType
  | bool _ => .bool
  | columns _ => .columns

/-- An argument as error messages show it. -/
def text : Arg → String
  | bool value => "Bool(" ++ toString value ++ ")"
  | columns value => "ColumnMask(" ++ value.wordsText ++ ")"

/-- An argument that may be missing, as error messages show it. -/
def optionText : Option Arg → String
  | none => "None"
  | some arg => "Some(" ++ arg.text ++ ")"

/-- A list of arguments as error messages show it. -/
def listText (args : List Arg) : String :=
  "[" ++ ", ".intercalate (args.map text) ++ "]"

end Arg

/-- An answer as error messages show it. -/
def Answer.text : Answer → String
  | keys value =>
    "ColumnMasks(\x7b" ++ ", ".intercalate (value.keys.map ColumnSet.wordsText) ++ "\x7d)"
  | bool value => "Bool(" ++ toString value ++ ")"

/-! ### Requests -/

/-- A named question about an operator. -/
structure Request where
  query : String
  args : List Arg
deriving DecidableEq

namespace Request

/-- The name of the question for an operator's unique keys. -/
def uniqueKeysQuery : String := "unique_keys"

/-- The name of the question whether an operator's rows differ in some columns. -/
def columnsUniqueQuery : String := "columns_unique"

/-- Asks for the unique keys. If nulls are ignored, rows with a null in a key's columns need not
differ there. -/
def uniqueKeys (ignoreNulls : Bool) : Request :=
  ⟨uniqueKeysQuery, [.bool ignoreNulls]⟩

/-- Asks whether any two rows differ in the given columns. -/
def columnsUnique (columns : ColumnSet) (ignoreNulls : Bool) : Request :=
  ⟨columnsUniqueQuery, [.columns columns, .bool ignoreNulls]⟩

end Request

end QueryAnalysis
