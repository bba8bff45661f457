import Bookkeeping.Json
import Bookkeeping.Registry

/-!
# Catalogs for authoring forms

The documents from which a form for writing rules is drawn: what may be asked, with which
operators, what may be done, and the values to choose from.
-/

namespace Bookkeeping

/-- The document of an option. -/
def SelectOption.form (option : SelectOption) : Json :=
  .object [("label", .text option.label), ("value", .text option.value)]

/-- The member that holds options, if there is a closed list. -/
def SelectOption.member (options : Option (List SelectOption)) : List (String × Json) :=
  (options.map fun options => ("options", Json.array (options.map SelectOption.form))).toList

/-- The document of an operator with its wording. -/
def Operator.form (op : Operator) : Json :=
  .object [("value", .text op.key), ("label", .text op.label)]

/-- The document of a condition type. -/
def ConditionType.form (type : ConditionType) : Json :=
  .object <|
    [ ("key", .text type.key), ("label", .text type.label), ("kind", .text type.kind.name),
      ("operators", .array (type.kind.operators.map Operator.form)) ] ++
    SelectOption.member type.options

/-- The document of an action type. -/
def ActionType.form (type : ActionType) : Json :=
  .object <|
    [ ("key", .text type.key), ("label", .text type.label),
      ("kind", .text type.effect.kindName) ] ++
    SelectOption.member type.options

/-- The document of a catalog. -/
def Catalog.form (catalog : Catalog) : Json :=
  .object
    [ ("domain", .text catalog.domain.key),
      ("conditions", .array (catalog.conditions.map ConditionType.form)),
      ("actions", .array (catalog.actions.map ActionType.form)) ]

end Bookkeeping
