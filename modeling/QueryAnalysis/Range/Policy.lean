/-!
# Null semantics

How null takes part in a range of values, and the defaults with which ranges are built.
-/

namespace QueryAnalysis

/-- How null takes part in membership of a range. -/
inductive NullSemantics where
  /-- Null satisfies no comparison, as in three-valued logic. -/
  | matchesNothing
  /-- Null is an ordinary value, equal to itself alone and below all others. -/
  | matchesNull
  /-- Null satisfies every comparison. -/
  | matchesAnything
deriving DecidableEq

namespace NullSemantics

/-- Every null semantics. -/
def all : List NullSemantics :=
  [matchesNothing, matchesNull, matchesAnything]

/-- The name by which configurations and printed ranges refer to a null semantics. -/
def name : NullSemantics → String
  | matchesNothing => "NULL_MATCHES_NOTHING"
  | matchesNull => "NULL_MATCHES_NULL"
  | matchesAnything => "NULL_MATCHES_ANYTHING"

/-- The null semantics with a given name. -/
def ofName? (s : String) : Option NullSemantics :=
  all.find? fun semantics => semantics.name == s

@[simp] theorem ofName?_name (semantics : NullSemantics) :
    ofName? semantics.name = some semantics := by
  cases semantics <;> rfl

end NullSemantics

/-- The defaults with which ranges are built. -/
structure RangePolicy where
  /-- The null semantics of a range for which none is chosen. -/
  semantics : NullSemantics := .matchesNothing
  /-- Whether coordinates over integral domains move to integers, so that a range that leaves the
  domain is found out. -/
  roundsIntegral : Bool := true
deriving DecidableEq

end QueryAnalysis
