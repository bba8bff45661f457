import Bookkeeping.Text.Blank

/-!
# Settings

The settings of the engine. Each has a default, so settings without any entry are complete.
-/

namespace Bookkeeping

/-- The settings of the engine. -/
structure Settings where
  /-- The deepest nesting of compound conditions allowed. -/
  maxDepth : Nat := 8
  /-- The source that is logged with every write. -/
  source : String := "rule"
  /-- Whether a batch passes over a rule that fails. -/
  skipFailed : Bool := true
  deriving DecidableEq

/-- Why settings are refused. -/
inductive SettingsError where
  /-- The text is no list of known settings. -/
  | malformed
  | zeroDepth
  | blankSource
  deriving DecidableEq

namespace Settings

/-- Refuses settings under which no rule could be used. -/
def check (settings : Settings) : Except SettingsError Settings :=
  if settings.maxDepth = 0 then
    .error .zeroDepth
  else if Text.isBlankText settings.source then
    .error .blankSource
  else
    .ok settings

end Settings

/-- The wording of a refusal. -/
def SettingsError.message : SettingsError → String
  | .malformed => "failed to parse config"
  | .zeroDepth => "invalid config: max_condition_depth must be at least 1"
  | .blankSource => "invalid config: enrichment_source must not be blank"

end Bookkeeping
