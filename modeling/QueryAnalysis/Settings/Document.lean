import QueryAnalysis.Settings
import QueryAnalysis.Toml.Reader
import QueryAnalysis.Toml.Writer

/-!
# Settings in a configuration document

A configuration document has a section `metadata` and a section `sarg`. A section or a setting that
is absent has its default, and whatever is not known is passed over. `Settings.parse` reads a
document and refuses settings that are not valid. `Settings.text` writes one; it checks only that
the document can hold the number, so what it writes may be refused when it is read.
-/

namespace QueryAnalysis

open Toml

/-! ### Names -/

/-- The section on the derivation of metadata. -/
def MetadataSettings.sectionName : String := "metadata"

/-- The setting for the limit on combined keys. -/
def MetadataSettings.limitName : String := "max_unique_key_combinations"

/-- The section on ranges. -/
def RangePolicy.sectionName : String := "sarg"

/-- The setting for the semantics of null. -/
def RangePolicy.semanticsName : String := "default_null_semantics"

/-- The setting for the rounding of coordinates. -/
def RangePolicy.roundingName : String := "round_integral_coordinates"

/-! ### Reading -/

/-- A natural number. -/
def Toml.Node.natural? : Node → Option Nat
  | .integer value => if 0 ≤ value then some value.toNat else none
  | _ => none

/-- A truth value. -/
def Toml.Node.bool? : Node → Option Bool
  | .boolean value => some value
  | _ => none

/-- Whether a node has nothing in it: a table or an array without content. -/
def Toml.Node.isVacant : Node → Bool
  | .table _ entries => entries.isEmpty
  | .array elements => elements.isEmpty
  | .tables elements => elements.isEmpty
  | _ => false

/-- A null semantics: its name as a string, or as the only name of a table with nothing behind
it. -/
def Toml.Node.semantics? : Node → Option NullSemantics
  | .string name => NullSemantics.ofName? name
  | .table _ [(name, content)] => if content.isVacant then NullSemantics.ofName? name else none
  | _ => none

/-- A setting that may be absent: it must then have its type, or else it has its default. -/
def setting? {α : Type} (read : Node → Option α) (default : α) : Option Node → Option α
  | none => some default
  | some node => read node

/-- The nodes of a section by the names of its settings: those of a table, or the elements of an
array in the order of the settings. A point in time gives no setting at all. -/
def sectionNodes? (names : List String) : Node → Option (List (Option Node))
  | .table _ entries => some (names.map fun name => entries.lookup name)
  | .array elements => some (names.zipIdx.map fun (_, i) => elements[i]?)
  | .tables elements =>
    some (names.zipIdx.map fun (_, i) => (elements[i]?).map fun entries => .table .header entries)
  | .dateTime => some (names.map fun _ => none)
  | _ => none

/-- The settings of the section on the derivation of metadata. -/
def MetadataSettings.ofNode? (node : Node) : Option MetadataSettings := do
  match ← sectionNodes? [limitName] node with
  | [limit] => do
    let maxCombinations ← setting? Node.natural? ({} : MetadataSettings).maxCombinations limit
    some { maxCombinations }
  | _ => none

/-- The settings of the section on ranges. -/
def RangePolicy.ofNode? (node : Node) : Option RangePolicy := do
  match ← sectionNodes? [semanticsName, roundingName] node with
  | [semantics, rounds] => do
    let semantics ← setting? Node.semantics? ({} : RangePolicy).semantics semantics
    let roundsIntegral ← setting? Node.bool? ({} : RangePolicy).roundsIntegral rounds
    some { semantics, roundsIntegral }
  | _ => none

/-- The settings of a document. -/
def Settings.ofEntries? (entries : Entries) : Option Settings := do
  let metadata ← setting? MetadataSettings.ofNode? {} (entries.lookup MetadataSettings.sectionName)
  let ranges ← setting? RangePolicy.ofNode? {} (entries.lookup RangePolicy.sectionName)
  some { metadata, ranges }

/-- Reads valid settings from the text of a document. -/
def Settings.parse (text : String) : Except Error Settings :=
  match (Toml.parse? text).bind Settings.ofEntries? with
  | none => .error .malformedDocument
  | some settings => settings.validate.map fun _ => settings

/-- Reads valid settings from the content of a file, which is absent if there is no file. -/
def Settings.load (content : Option ByteArray) : Except Error Settings :=
  match content.bind String.fromUTF8? with
  | none => .error .unreadableFile
  | some text => Settings.parse text

/-! ### Writing -/

/-- The section that settings of the derivation of metadata are saved as. -/
def MetadataSettings.toSection (s : MetadataSettings) : Section :=
  ⟨sectionName, [(limitName, .natural s.maxCombinations)]⟩

/-- The section that settings of ranges are saved as. -/
def RangePolicy.toSection (policy : RangePolicy) : Section :=
  ⟨sectionName, [(semanticsName, .string policy.semantics.name),
    (roundingName, .boolean policy.roundsIntegral)]⟩

/-- The sections that settings are saved as. -/
def Settings.sections (s : Settings) : List Section :=
  [s.metadata.toSection, s.ranges.toSection]

/-- The text of a document with the settings, which cannot hold a number beyond 63 bits. -/
def Settings.text (s : Settings) : Except Error String :=
  if (s.metadata.maxCombinations : Int) ≤ Int64.maxValue.toInt then .ok (documentText s.sections)
  else .error .unwritableNumber

end QueryAnalysis
