import QueryAnalysis.Error
import QueryAnalysis.Range.Policy

/-!
# Settings

The settings of the analyses: how many keys a join may combine, and the defaults with which ranges
are built. They are valid if the limit is positive.
-/

namespace QueryAnalysis

/-- The settings of the derivation of metadata. -/
structure MetadataSettings where
  /-- How many combinations of a left and a right key a join may have for its combined keys to be
  derived. -/
  maxCombinations : Nat := 1024
deriving DecidableEq

/-- The settings of all analyses. -/
structure Settings where
  metadata : MetadataSettings := {}
  ranges : RangePolicy := {}
deriving DecidableEq

/-- Refuses a limit that is not positive. -/
def MetadataSettings.validate (s : MetadataSettings) : Except Error Unit :=
  if s.maxCombinations = 0 then .error .limitNotPositive else .ok ()

/-- Refuses settings of which a part is not valid. -/
def Settings.validate (s : Settings) : Except Error Unit :=
  s.metadata.validate

end QueryAnalysis
