import Bookkeeping.RuleText.Literal
import Bookkeeping.Rule

/-!
# The grammar of rules

A rule has a name, options in parentheses, a colon, conditions after `when` and actions after
`then`. Conditions are joined by `and`, which binds tighter, and `or`; parentheses group them.
A chain of one connective is one compound condition, and a condition alone is none.
-/

namespace Bookkeeping.RuleText

open Reader

/-- Reads the operator of a condition. -/
def operator : Reader Operator := do
  layout
  labelled "operator" <| choice
    [ do choice [keyword "like", keyword "LIKE"]; return .like,
      do word ">="; return .gte,
      do word ">"; return .gt,
      do word "<="; return .lte,
      do word "<"; return .lt,
      do word "="; return .eq ]

/-- Reads a condition on one column. -/
def leaf : Reader Condition := do
  let typeKey ← name
  let op ← required operator
  let read ← required value
  return .atom typeKey op read

/-- Reads a group in parentheses, or a condition on one column. -/
def primary (inner : Reader Condition) : Reader Condition := do
  layout
  labelled "condition" <| choice
    [ do
        char '('
        let found ← inner
        layout
        required (char ')')
        return found,
      leaf ]

/-- A chain of conditions: one stands for itself, more are joined. -/
def group (op : Connective) (first : Condition) (others : List Condition) : Condition :=
  if others.isEmpty then first else .joined op (first :: others)

/-- Reads conditions joined by a connective, written in small or in capital letters. -/
def chain (op : Connective) (spellings : List String) (operand : Reader Condition) :
    Reader Condition := do
  let first ← operand
  let others ← many do
    layout
    choice (spellings.map keyword)
    required operand
  return group op first others

/-- Reads a condition in which groups are read by `inner`. -/
def conditionOver (inner : Reader Condition) : Reader Condition := do
  layout
  chain .or ["OR", "or"] (chain .and ["AND", "and"] (primary inner))

/-- Reads a condition with groups nested less deep than a bound. -/
def conditionWithin : Nat → Reader Condition
  | 0, text => .error { rest := text }
  | bound + 1, text => conditionOver (fun inside => conditionWithin bound inside) text

/-- Reads a condition. A text has fewer groups inside each other than it has characters. -/
def condition : Reader Condition :=
  fun text => conditionWithin (text.length + 1) text

/-- Reads an action. -/
def action : Reader Action := do
  layout
  let typeKey ← labelled "action type" name
  let read ← required value
  return ⟨typeKey, read⟩

/-- An option of a rule. -/
inductive RuleOption where
  | effective (date : Date)
  | inactive

/-- The rule with an option set. -/
def RuleOption.set (rule : Rule) : RuleOption → Rule
  | .effective date => rule.effectiveFrom date
  | .inactive => rule.inactive

/-- Reads an option of a rule. -/
def ruleOption : Reader RuleOption := do
  layout
  labelled "rule option" <| choice
    [ do
        keyword "effective"
        layout
        return .effective (← required date),
      do
        keyword "inactive"
        return .inactive ]

/-- Reads the options of a rule in parentheses. -/
def ruleOptions : Reader (List RuleOption) := do
  mark '('
  let options ← required (separated (mark ',') ruleOption)
  layout
  required (char ')')
  return options

/-- Reads the conditions of a rule, after `when`. -/
def whenPart : Reader Condition := do
  layout
  keyword "when"
  required condition

/-- Reads a rule. -/
def rule : Reader Rule := do
  layout
  keyword "rule"
  layout
  let title ← labelled "rule name" (required (choice [quoted, name]))
  let options ← option ruleOptions
  layout
  required (char ':')
  let conditions ← option whenPart
  layout
  labelled "`then`" (required (keyword "then"))
  let actions ← required (separated (mark ',') action)
  let plain : Rule := { name := some title, conditions := conditions.toList, actions }
  return (options.getD []).foldl RuleOption.set plain

/-- Reads rules, and layout after the last. -/
def rules : Reader (List Rule) := do
  let found ← many rule
  layout
  return found

end Bookkeeping.RuleText
