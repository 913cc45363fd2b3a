import QueryAnalysis.Columns

/-!
# Programs over column sets

Column sets come about by sequences of operations. `ColumnSet.Operation` is one operation, as a
value, over named registers that hold sets; an assignment puts its result into a register, and
`ColumnSet.run` carries out a list of assignments. A register that nothing was assigned to holds the
empty set.
-/

namespace QueryAnalysis.ColumnSet

/-- A way to make a column set, out of those in registers. -/
inductive Operation where
  | new
  | singleton (n : Nat)
  | range (start stop : Nat)
  | ofList (ns : List Nat)
  | union (a b : String)
  | inter (a b : String)
  | diff (a b : String)
  | shift (a : String) (offset : Nat)
  /-- Adds an ordinal to the set in the register that is assigned to. -/
  | insert (n : Nat)
  /-- Removes an ordinal from the set in the register that is assigned to. -/
  | erase (n : Nat)
deriving DecidableEq

/-- An operation, and the register that gets its result. -/
structure Assignment where
  target : String
  operation : Operation
deriving DecidableEq

/-- The sets in all registers. -/
abbrev Registers := String → ColumnSet

/-- The set that an assignment puts into its register. -/
def Assignment.value (a : Assignment) (registers : Registers) : ColumnSet :=
  match a.operation with
  | .new => .empty
  | .singleton n => .singleton n
  | .range start stop => .range start stop
  | .ofList ns => .ofList ns
  | .union x y => (registers x).union (registers y)
  | .inter x y => (registers x).inter (registers y)
  | .diff x y => (registers x).diff (registers y)
  | .shift x offset => (registers x).shift offset
  | .insert n => (registers a.target).insert n
  | .erase n => (registers a.target).erase n

/-- Carries out an assignment. -/
def Assignment.run (a : Assignment) (registers : Registers) : Registers :=
  let value := a.value registers
  fun register => if register = a.target then value else registers register

/-- Carries out assignments in order. -/
def run (assignments : List Assignment) (registers : Registers) : Registers :=
  assignments.foldl (fun current a => a.run current) registers

/-- The registers before anything is assigned. -/
def initial : Registers :=
  fun _ => .empty

end QueryAnalysis.ColumnSet
