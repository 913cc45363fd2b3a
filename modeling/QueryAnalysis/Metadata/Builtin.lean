import QueryAnalysis.Metadata.ColumnUniqueness
import QueryAnalysis.Metadata.Provider
import QueryAnalysis.Metadata.UniqueKeys
import QueryAnalysis.Settings

/-!
# The built-in provider

`Provider.builtin` chains the rules for unique keys and those for the uniqueness of columns. With a
limit, joins with more combinations of keys than that give no combined keys; without one, they give
them all. `Provider.ofSettings` takes the limit from the settings.
-/

namespace QueryAnalysis

/-- The built-in rules, under a limit on the combinations of keys in a join. -/
def Provider.builtin (limit : Option Nat) : Provider :=
  .chain [.table (UniqueKeys.table limit), .table ColumnUniqueness.table]

/-- The built-in rules under valid settings. -/
def Provider.ofSettings (settings : MetadataSettings) : Except Error Provider :=
  settings.validate.map fun _ => .builtin (some settings.maxCombinations)

end QueryAnalysis
