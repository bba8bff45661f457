import Bookkeeping.Predicate
import Bookkeeping.RuleError
import Bookkeeping.Store.Collection
import Bookkeeping.Value.Coercion

/-!
# Condition types

A condition type declares what a leaf condition may ask of a column: the kind of its values
fixes the operators allowed and the reading of the value. A leaf becomes an atomic predicate
only through its type.
-/

namespace Bookkeeping

/-- One entry of a closed list of values. -/
structure SelectOption where
  label : String
  value : String
  deriving DecidableEq

/-- Whether a text is one of the option values. -/
def SelectOption.offered (options : List SelectOption) (text : String) : Bool :=
  options.any (·.value == text)

/-- The kind of values a condition type asks about. -/
inductive ConditionKind where
  | text
  | number (kind : NumberKind)
  | date
  | select
  deriving DecidableEq

namespace ConditionKind

/-- The operators allowed, in the order shown to authors. -/
def operators : ConditionKind → List Operator
  | .text => [.like, .eq]
  | .number _ => [.gt, .gte, .lt, .lte, .eq]
  | .date => [.gt, .gte, .lt, .lte, .eq]
  | .select => [.eq]

/-- The name of the kind. -/
def name : ConditionKind → String
  | .text => "text"
  | .number _ => "number"
  | .date => "date"
  | .select => "select"

/-- What a value of the kind has to be, in the wording of a refusal. -/
def expectation : ConditionKind → String
  | .text => "expected text"
  | .number .integer => "expected an integer"
  | .number .decimal => "expected a decimal number"
  | .date => "expected a YYYY-MM-DD date"
  | .select => "expected an option value"

/-- The value read as this kind. -/
def read? : ConditionKind → Value → Option Value
  | .text, value => value.text?.map .text
  | .number kind, value => value.number? kind
  | .date, value => value.date?.map .date
  | .select, value => value.text?.map .text

end ConditionKind

/-- The wording for a value outside a closed list. -/
def notOffered : String := "not one of the available options"

/-- The declaration of a condition type. -/
structure ConditionType where
  key : String
  label : String
  kind : ConditionKind
  column : Column
  /-- The table to join before the column is read. -/
  relation : Option String := none
  /-- The closed list of values, if there is one. -/
  options : Option (List SelectOption) := none

namespace ConditionType

/-- The operator of a text, if the type allows it. -/
def operator? (type : ConditionType) (text : String) : Option Operator :=
  (Operator.ofKey? text).filter (· ∈ type.kind.operators)

/-- The refusal of a value for a reason. -/
def invalid (type : ConditionType) (value : Value) (reason : String) : RuleError :=
  .invalidConditionValue type.key value.display reason

/-- Whether a value, already read as the type's kind, is in its closed list. -/
def offers (type : ConditionType) (value : Value) : Bool :=
  match type.kind, type.options, value with
  | .select, some options, .text text => SelectOption.offered options text
  | _, _, _ => true

/-- The predicate of an operator and a value of the type's kind. -/
def atom (type : ConditionType) (op : Operator) (value : Value) : Predicate :=
  match op, value with
  | .like, .text text => .contains type.column text
  | op, value => .compare type.column op value

/-- The predicate of a leaf condition: the operator has to be allowed, the value has to be
readable as the type's kind and, for a closed list, in it. -/
def build (type : ConditionType) (operator : String) (value : Value) :
    Except RuleError Predicate :=
  match type.operator? operator with
  | none => .error (.unsupportedOperator type.key operator)
  | some op =>
    match type.kind.read? value with
    | none => .error (type.invalid value type.kind.expectation)
    | some read =>
      if type.offers read then
        .ok (type.atom op read)
      else
        .error (type.invalid value notOffered)

/-- The collection with the table of the type's column joined. -/
def prepare (type : ConditionType) (collection : Collection) : Collection :=
  match type.relation with
  | some table => collection.join table
  | none => collection

end ConditionType

end Bookkeeping
