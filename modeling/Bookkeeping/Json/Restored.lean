import Bookkeeping.Json.Reader
import Bookkeeping.Json.Stored

/-!
# Rules from JSON documents

Rules, their parts and settings are read back from documents. An object may have its members in
any order and members that mean nothing, except for settings; a member that means something
comes at most once. An array stands for an object with its members in the declared order.

A text is read as a document first. A condition in it is taken in as a whole before its parts
are looked at, so nothing in it may be unreadable, and its arrays and objects may nest 127 deep,
counted from the whole document.
-/

namespace Bookkeeping

open Bookkeeping.Text

namespace Json

/-- How deep arrays and objects may nest. -/
def depthLimit : Nat := 127

/-- Whether a document inside so many arrays and objects can be taken in as a whole. -/
def fits (outer : Nat) (json : Json) : Bool :=
  json.isReadable && outer + json.depth ≤ depthLimit

/-- The member of a name, if the name occurs once; none if it occurs again. -/
def member? (members : List (String × Json)) (name : String) : Option (Option Json) :=
  match members.filter (·.1 == name) with
  | [] => some none
  | [(_, value)] => some (some value)
  | _ => none

/-- The members of the given names, in the order of the names. -/
def named? (names : List String) : Json → Option (List (Option Json))
  | .object members => names.mapM (member? members)
  | .array items =>
    if items.length ≤ names.length then
      some (items.map some ++ List.replicate (names.length - items.length) none)
    else
      none
  | _ => none

/-- Whether the document is an array that leaves members out. -/
def isShort (count : Nat) : Json → Bool
  | .array items => items.length < count
  | _ => false

/-- The text that a document is. -/
def text? : Json → Option String
  | .text s => some s
  | _ => none

/-- The truth value that a document is. -/
def flag? : Json → Option Bool
  | .flag b => some b
  | _ => none

/-- The natural number of 64 bits that a document is. -/
def nat64? : Json → Option Nat
  | .whole z => if 0 ≤ z ∧ z < UInt64.size then some z.toNat else none
  | _ => none

/-- The items of an array. -/
def items? : Json → Option (List Json)
  | .array items => some items
  | _ => none

/-- The document read in one way, or nothing for `null`. -/
def orNull {α : Type} (read : Json → Option α) : Json → Option (Option α)
  | .null => some none
  | json => (read json).map some

/-- A member that may be left out. -/
def optional {α : Type} (default : α) (read : Json → Option α) : Option Json → Option α
  | none => some default
  | some json => read json

/-- A name from a closed list: a text, or the only member of an object, with no value. -/
def unit? {α : Type} (ofName? : String → Option α) : Json → Option α
  | .text s => ofName? s
  | .object [(s, .null)] => ofName? s
  | _ => none

end Json

open Json

/-- Reads a value. A whole number beyond 64-bit integers is a decimal, and a text is a text even
if it is the text of a day. -/
def Value.ofJson? : Json → Option Value
  | .whole z =>
    match toInt64? z with
    | some n => some (.int n)
    | none => some (.decimal (Binary64.ofInt z))
  | .decimal x => some (.decimal x)
  | .flag b => some (.flag b)
  | .text s => some (.text s)
  | _ => none

/-- Reads an operator. -/
def Operator.ofJson? : Json → Option Operator :=
  unit? Operator.ofKey?

/-- Reads a domain. -/
def Domain.ofJson? : Json → Option Domain :=
  unit? Domain.ofKey?

/-- Reads a date. -/
def Date.ofJson? (json : Json) : Option Date :=
  json.text?.bind fun s => Date.read? true s.toList

namespace Condition

/-- Which node a condition is. Below another condition the kind may be given by its number. -/
def kindIsLeaf? (inner : Bool) : Json → Option Bool
  | .text "leaf" => some true
  | .text "compound" => some false
  | .whole 0 => if inner then some true else none
  | .whole 1 => if inner then some false else none
  | _ => none

/-- The kind of a condition and the document with the rest of it. -/
def kinded? (inner : Bool) : Json → Option (Bool × Json)
  | .object members => do
    let kind ← (← member? members "kind").bind (kindIsLeaf? inner)
    return (kind, .object (members.filter (·.1 != "kind")))
  | .array (kind :: items) => do
    return (← kindIsLeaf? inner kind, .array items)
  | _ => none

/-- Reads a condition that nests less than the bound. -/
def ofJsonWithin? : Nat → Bool → Json → Option Condition
  | 0, _, _ => none
  | bound + 1, inner, json => do
    let (isLeaf, body) ← kinded? inner json
    if isLeaf then
      match ← named? ["condition_type", "operator", "value"] body with
      | [some typeKey, some operator, some value] =>
        return .leaf (← typeKey.text?) (← operator.text?) (← Value.ofJson? value)
      | _ => none
    else
      match ← named? ["operator", "children"] body with
      | [some operator, some children] =>
        return .compound (← operator.text?)
          (← (← children.items?).mapM (ofJsonWithin? bound true))
      | _ => none

/-- Reads a condition. -/
def ofJson? (json : Json) : Option Condition :=
  ofJsonWithin? (json.depth + 1) false json

/-- Reads a text as a condition. -/
def read? (text : String) : Option Condition := do
  let json ← Json.read? text
  if json.fits 0 then ofJson? json else none

end Condition

/-- Reads an action. -/
def Action.ofJson? (json : Json) : Option Action := do
  match ← named? ["action_type", "value"] json with
  | [some typeKey, some value] => return ⟨← typeKey.text?, ← Value.ofJson? value⟩
  | _ => none

namespace Rule

/-- The members of a rule, in order. -/
def members : List String :=
  ["name", "domain", "active", "effective_date", "conditions", "actions"]

/-- Reads a rule; what is left out takes its default. -/
def ofJson? (json : Json) : Option Rule := do
  match ← named? members json with
  | [name, domain, active, effectiveDate, conditions, actions] =>
    return {
      name := ← optional none (orNull text?) name
      domain := ← optional .transaction Domain.ofJson? domain
      active := ← optional true flag? active
      effectiveDate := ← optional none (orNull Date.ofJson?) effectiveDate
      conditions := ← (← optional [] items? conditions).mapM Condition.ofJson?
      actions := ← (← optional [] items? actions).mapM Action.ofJson? }
  | _ => none

/-- Whether every condition of a rule can be taken in as a whole. -/
def conditionsFit (json : Json) : Bool :=
  match named? members json with
  | some [_, _, _, _, some (.array conditions), _] => conditions.all (·.fits 2)
  | _ => true

/-- Reads a text as a rule. -/
def read? (text : String) : Option Rule := do
  let json ← Json.read? text
  if conditionsFit json then ofJson? json else none

end Rule

/-- Reads a stored condition. -/
def ConditionRow.ofJson? (json : Json) : Option ConditionRow := do
  let members := ["id", "parent_id", "position", "condition_type", "operator", "value"]
  if json.isShort members.length then
    none
  match ← named? members json with
  | [some id, parent, some position, some typeKey, some operator, value] =>
    return {
      id := ← id.nat64?
      parent := ← optional none (orNull nat64?) parent
      position := ← position.nat64?
      typeKey := ← typeKey.text?
      operator := ← operator.text?
      value := ← optional none (orNull Value.ofJson?) value }
  | _ => none

/-- Reads settings, unchecked. A member that is no setting is refused. -/
def Settings.ofJson? (json : Json) : Option Settings := do
  let names := ["max_condition_depth", "enrichment_source", "skip_failed_rules"]
  let defaults : Settings := {}
  if let .object members := json then
    if members.any (·.1 ∉ names) then
      none
  match ← named? names json with
  | [maxDepth, source, skipFailed] =>
    return {
      maxDepth := ← optional defaults.maxDepth nat64? maxDepth
      source := ← optional defaults.source text? source
      skipFailed := ← optional defaults.skipFailed flag? skipFailed }
  | _ => none

end Bookkeeping
