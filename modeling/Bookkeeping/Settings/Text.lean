import Bookkeeping.Settings
import Bookkeeping.Settings.Toml

/-!
# Settings from text

Each entry of a settings text names a setting of its own and has a value of its kind. The
settings read have to be such that rules can be used.
-/

namespace Bookkeeping.Settings

open Bookkeeping.Toml

/-- The value of the entry of a key, if there is one; none if there are several. -/
def setting? (entries : List (String × Scalar)) (key : String) : Option (Option Scalar) :=
  match entries.filter (·.1 == key) with
  | [] => some none
  | [(_, value)] => some (some value)
  | _ => none

/-- The nesting limit of an entry. -/
def depthOf? : Option Scalar → Option Nat
  | none => some ({} : Settings).maxDepth
  | some (.integer n) => if 0 ≤ n then some n.toInt.toNat else none
  | some _ => none

/-- The source of an entry. -/
def sourceOf? : Option Scalar → Option String
  | none => some ({} : Settings).source
  | some (.text s) => some s
  | some _ => none

/-- Whether a batch passes over failing rules, by an entry. -/
def skipOf? : Option Scalar → Option Bool
  | none => some ({} : Settings).skipFailed
  | some (.flag b) => some b
  | some _ => none

/-- The settings of a list of entries. -/
def ofEntries? (entries : List (String × Scalar)) : Option Settings := do
  let names := ["max_condition_depth", "enrichment_source", "skip_failed_rules"]
  if entries.any (·.1 ∉ names) then
    none
  return {
    maxDepth := ← depthOf? (← setting? entries "max_condition_depth")
    source := ← sourceOf? (← setting? entries "enrichment_source")
    skipFailed := ← skipOf? (← setting? entries "skip_failed_rules") }

/-- Reads settings from text and checks them. -/
def parse (text : String) : Except SettingsError Settings :=
  match (Toml.read? text).bind ofEntries? with
  | some settings => settings.check
  | none => .error .malformed

end Bookkeeping.Settings
