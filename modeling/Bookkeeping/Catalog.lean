import Bookkeeping.Catalog.ActionType

/-!
# Catalogs

A catalog is the closed set of condition and action types of one domain. It is built from the
domain's declarations and the owner's vocabulary; a key that it does not declare means nothing.
-/

namespace Bookkeeping

/-- A kind of record that rules are about. -/
inductive Domain where
  | transaction
  deriving DecidableEq

namespace Domain

/-- The text a domain is stored as. -/
def key : Domain → String
  | .transaction => "transaction"

/-- The domain stored as this text. -/
def ofKey? (key : String) : Option Domain :=
  if key = Domain.transaction.key then some .transaction else none

end Domain

/-- The values an owner offers to choose from. -/
structure Vocabulary where
  categories : List SelectOption := []
  merchants : List SelectOption := []

/-- The condition and action types of a domain. -/
structure Catalog where
  domain : Domain
  /-- The records that rules may see at all. -/
  scope : Predicate
  conditions : List ConditionType
  actions : List ActionType
  /-- The type behind the first day a rule applies to; authors do not name it. -/
  effectiveDate : ConditionType

namespace Catalog

/-- The condition type of a key. -/
def conditionType (catalog : Catalog) (key : String) : Except RuleError ConditionType :=
  match catalog.conditions.find? (·.key == key) with
  | some type => .ok type
  | none => .error (.unsupportedConditionType key)

/-- The action type of a key. -/
def actionType (catalog : Catalog) (key : String) : Except RuleError ActionType :=
  match catalog.actions.find? (·.key == key) with
  | some type => .ok type
  | none => .error (.unsupportedActionType key)

end Catalog

end Bookkeeping
