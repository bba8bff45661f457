import Bookkeeping.Text.Join
import Bookkeeping.Text.Numeral

/-!
# What is wrong with a rule

The causes for which a rule, or the rows it is stored as, is refused. None of them passes with
time; each has one wording.
-/

namespace Bookkeeping

/-- A cause for which a rule is refused. -/
inductive RuleError where
  | unsupportedConditionType (key : String)
  | unsupportedActionType (key : String)
  | unsupportedOperator (conditionType operator : String)
  | invalidConditionValue (conditionType value reason : String)
  | malformedCompound (operator : String) (children : Nat)
  | invalidActionValue (actionType value reason : String)
  | missingActions (rule : String)
  | duplicateAction (rule actionType : String)
  | tooDeep (depth limit : Nat)
  /-- A stored condition whose parent is missing or holds no children. -/
  | orphaned (id : Nat)
  | duplicateId (id : Nat)
  /-- Stored conditions that are each other's ancestors. -/
  | cyclic (path : List Nat)
  | enrichmentUnavailable (actionType : String)
  deriving DecidableEq

namespace RuleError

open Bookkeeping.Text

/-- The wording of a cause. -/
def message : RuleError → String
  | .unsupportedConditionType key => "unsupported condition type '" ++ key ++ "'"
  | .unsupportedActionType key => "unsupported action type '" ++ key ++ "'"
  | .unsupportedOperator conditionType operator =>
    "operator '" ++ operator ++ "' is not allowed for condition type '" ++ conditionType ++ "'"
  | .invalidConditionValue conditionType value reason =>
    "invalid value " ++ value ++ " for condition type '" ++ conditionType ++ "': " ++ reason
  | .malformedCompound operator children =>
    "malformed compound condition: operator '" ++ operator ++ "' with " ++ natText children ++
      " children"
  | .invalidActionValue actionType value reason =>
    "invalid value " ++ value ++ " for action type '" ++ actionType ++ "': " ++ reason
  | .missingActions rule =>
    "rule '" ++ rule ++ "' has no actions; at least one action is required"
  | .duplicateAction rule actionType =>
    "action type '" ++ actionType ++ "' appears more than once in rule '" ++ rule ++ "'"
  | .tooDeep depth limit =>
    "condition nesting depth " ++ natText depth ++ " exceeds the limit of " ++ natText limit
  | .orphaned id =>
    "condition " ++ natText id ++
      " refers to a parent that is missing or not a compound condition"
  | .duplicateId id => "condition id " ++ natText id ++ " appears more than once"
  | .cyclic path =>
    "cyclic condition parent chain: " ++ Text.joinWith " -> " (path.map natText)
  | .enrichmentUnavailable actionType =>
    "action type '" ++ actionType ++ "' needs an enrichment provider, but none is configured"

end RuleError

end Bookkeeping
