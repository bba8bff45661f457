import Bookkeeping.Catalog.ConditionType
import Bookkeeping.Text.Blank

/-!
# Action types

An action type declares what a rule may write into a column: one of a closed list of values, a
text of the author's, or a value that an enrichment provider suggests for each record.
-/

namespace Bookkeeping

/-- What an action does with its value. -/
inductive ActionEffect where
  /-- Writes the chosen option. -/
  | assign
  /-- Writes the text. -/
  | setText
  /-- Writes what the provider suggests, the value being its instruction. -/
  | enrich
  deriving DecidableEq

/-- The name of the kind of value an author gives: a choice or an open parameter. -/
def ActionEffect.kindName : ActionEffect → String
  | .assign => "selection"
  | .setText => "function"
  | .enrich => "function"

/-- The declaration of an action type. -/
structure ActionType where
  key : String
  label : String
  effect : ActionEffect
  /-- The column the action writes. -/
  column : Column
  /-- The closed list of values, if there is one. -/
  options : Option (List SelectOption) := none

namespace ActionType

/-- The refusal of a value for a reason. -/
def invalid (type : ActionType) (value : Value) (reason : String) : RuleError :=
  .invalidActionValue type.key value.display reason

/-- The value an action of the type works with. A chosen option has to be in the list, so
without a list there is none; a text must not be blank; an instruction is passed on as it is. -/
def check (type : ActionType) (value : Value) : Except RuleError Value :=
  match type.effect with
  | .assign =>
    match value.text? with
    | none => .error (type.invalid value "expected an option value")
    | some text =>
      if SelectOption.offered (type.options.getD []) text then
        .ok (.text text)
      else
        .error (type.invalid value notOffered)
  | .setText =>
    match value.text? with
    | none => .error (type.invalid value "expected non-blank text")
    | some text =>
      if Text.isBlankText text then
        .error (type.invalid value "expected non-blank text")
      else
        .ok (.text text)
  | .enrich => .ok value

/-- Whether a suggested value may be written into the type's column: one of the list, if there
is one. -/
def accepts (type : ActionType) (value : Value) : Bool :=
  match type.options with
  | some options => value.text?.any (SelectOption.offered options)
  | none => true

end ActionType

end Bookkeeping
