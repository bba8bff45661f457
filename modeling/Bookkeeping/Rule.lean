import Bookkeeping.Catalog
import Bookkeeping.Condition

/-!
# Rules

A rule is a forest of conditions, all of which have to hold, and the actions to perform on
every record that it matches. A rule without conditions matches all records in scope.
-/

namespace Bookkeeping

/-- One change that a rule makes to each record it matches. -/
structure Action where
  typeKey : String
  value : Value

/-- A rule. -/
structure Rule where
  name : Option String := none
  domain : Domain := .transaction
  active : Bool := true
  /-- Only records dated on or after this day match. -/
  effectiveDate : Option Date := none
  conditions : List Condition := []
  actions : List Action := []

namespace Rule

/-- The name a rule is shown under. -/
def displayName (rule : Rule) : String :=
  rule.name.getD "untitled rule"

def named (rule : Rule) (name : String) : Rule :=
  { rule with name := some name }

def effectiveFrom (rule : Rule) (date : Date) : Rule :=
  { rule with effectiveDate := some date }

def inactive (rule : Rule) : Rule :=
  { rule with active := false }

def addCondition (rule : Rule) (condition : Condition) : Rule :=
  { rule with conditions := rule.conditions ++ [condition] }

/-- Takes out the condition at an index, if there is one. -/
def removeCondition (rule : Rule) (index : Nat) : Option Condition × Rule :=
  (rule.conditions[index]?, { rule with conditions := rule.conditions.eraseIdx index })

def addAction (rule : Rule) (action : Action) : Rule :=
  { rule with actions := rule.actions ++ [action] }

/-- Takes out the first action of a type, if there is one. -/
def removeAction (rule : Rule) (typeKey : String) : Option Action × Rule :=
  (rule.actions.find? (·.typeKey == typeKey),
    { rule with actions := rule.actions.eraseP (·.typeKey == typeKey) })

end Rule

end Bookkeeping
