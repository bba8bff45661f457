import Bookkeeping.Condition.Row
import Bookkeeping.Json
import Bookkeeping.Rule
import Bookkeeping.Settings

/-!
# Rules as JSON documents

The documents that rules, their parts and settings are stored as. A value is written as itself,
so a date becomes the text of its day.
-/

namespace Bookkeeping

/-- The document of a value. -/
def Value.toJson : Value → Json
  | .int n => .whole n.toInt
  | .decimal x => .decimal x
  | .flag b => .flag b
  | .text s => .text s
  | .date d => .text d.text

/-- The document of an operator is its key. -/
def Operator.toJson (op : Operator) : Json :=
  .text op.key

/-- The document of a domain is its key. -/
def Domain.toJson (domain : Domain) : Json :=
  .text domain.key

namespace Condition

mutual

/-- The document of a condition. -/
def toJson : Condition → Json
  | .leaf typeKey operator value =>
    .object
      [ ("kind", .text "leaf"), ("condition_type", .text typeKey), ("operator", .text operator),
        ("value", value.toJson) ]
  | .compound operator children =>
    .object
      [ ("kind", .text "compound"), ("operator", .text operator),
        ("children", .array (forestToJson children)) ]

/-- The documents of a forest. -/
def forestToJson : List Condition → List Json
  | [] => []
  | condition :: rest => toJson condition :: forestToJson rest

end

end Condition

/-- The document of an action. -/
def Action.toJson (action : Action) : Json :=
  .object [("action_type", .text action.typeKey), ("value", action.value.toJson)]

/-- The document of a rule; a name or first day it does not have is left out. -/
def Rule.toJson (rule : Rule) : Json :=
  .object <|
    (rule.name.map fun name => ("name", Json.text name)).toList ++
    [("domain", rule.domain.toJson), ("active", .flag rule.active)] ++
    (rule.effectiveDate.map fun date => ("effective_date", Json.text date.text)).toList ++
    [ ("conditions", .array (Condition.forestToJson rule.conditions)),
      ("actions", .array (rule.actions.map Action.toJson)) ]

/-- The document of a stored condition. -/
def ConditionRow.toJson (row : ConditionRow) : Json :=
  .object
    [ ("id", .whole row.id), ("parent_id", row.parent.elim .null fun id => .whole id),
      ("position", .whole row.position), ("condition_type", .text row.typeKey),
      ("operator", .text row.operator), ("value", row.value.elim .null Value.toJson) ]

/-- The document of settings. -/
def Settings.toJson (settings : Settings) : Json :=
  .object
    [ ("max_condition_depth", .whole settings.maxDepth),
      ("enrichment_source", .text settings.source),
      ("skip_failed_rules", .flag settings.skipFailed) ]

end Bookkeeping
