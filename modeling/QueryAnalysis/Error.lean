import QueryAnalysis.Plan
import QueryAnalysis.Metadata.Request

/-!
# Errors

`Error` lists what can go wrong, by cause, and `Error.message` is the text of each. A failure of a
file or of a configuration document has no text of its own.
-/

namespace QueryAnalysis

/-- What can go wrong. -/
inductive Error where
  /-- A request has arguments of other types than the table `table` was told for its query. -/
  | argumentTypes (table query : String) (expected : List ArgType) (got : List Arg)
  /-- A query was answered with a value that it cannot have. -/
  | answerKind (query : String) (answer : Answer)
  /-- A rule found no truth value among its arguments where it expects one. -/
  | noBoolArgument (position : Nat) (got : Option Arg)
  /-- A rule found no column set among its arguments where it expects one. -/
  | noColumnsArgument (position : Nat) (got : Option Arg)
  /-- A second handler was registered where one already is. -/
  | ambiguousHandler (query : String) (kind : OperatorKind) (signature : List ArgType)
  /-- A rule was applied to an operator that it does not know. -/
  | wrongOperator (rule : String) (kind : OperatorKind)
  /-- A rule failed for a reason of its own. -/
  | rule (reason : String)
  /-- The limit on combined keys is zero. -/
  | limitNotPositive
  /-- A predicate reads a column that the row does not have. -/
  | columnOutOfRow (column width : Nat)
  /-- A rule was given something that it cannot use. -/
  | invalidArgument (reason : String)
  /-- A file is missing or is not text. -/
  | unreadableFile
  /-- A setting has a number that a configuration document cannot hold. -/
  | unwritableNumber
  /-- A configuration document is malformed or has settings of the wrong type. -/
  | malformedDocument
deriving DecidableEq

/-- The text of an error; none for a failure that only its kind describes. -/
def Error.message : Error → Option String
  | argumentTypes table query expected got =>
    some ("Metadata error: " ++ table ++ ": query '" ++ query ++ "' expects arguments "
      ++ ArgType.listText expected ++ ", got " ++ Arg.listText got)
  | answerKind query answer =>
    some ("Metadata error: query '" ++ query ++ "' produced a value of the wrong kind: "
      ++ answer.text)
  | noBoolArgument position got =>
    some ("Metadata error: expected boolean argument at position " ++ toString position
      ++ ", got " ++ Arg.optionText got)
  | noColumnsArgument position got =>
    some ("Metadata error: expected column mask argument at position " ++ toString position
      ++ ", got " ++ Arg.optionText got)
  | ambiguousHandler query kind signature =>
    some ("Ambiguous handler: query '" ++ query ++ "' already has a handler for " ++ kind.text
      ++ " with signature " ++ ArgType.listText signature)
  | wrongOperator applied kind =>
    some ("Rule error: " ++ applied ++ " rule cannot be applied to " ++ kind.text)
  | rule reason => some ("Rule error: " ++ reason)
  | limitNotPositive =>
    some "Configuration error: metadata.max_unique_key_combinations must be positive"
  | columnOutOfRow column width =>
    some ("Invalid argument: predicate references column " ++ toString column ++ " of a "
      ++ toString width ++ "-column row")
  | invalidArgument reason => some ("Invalid argument: " ++ reason)
  | unreadableFile => none
  | unwritableNumber => none
  | malformedDocument => none

end QueryAnalysis
