import Bookkeeping.Registry
import Bookkeeping.Rule

/-!
# What a rule matches

A forest of conditions is evaluated over a collection without reading it. The nesting is
limited, the tables that the leaves need are joined, and the whole forest becomes one
predicate, which restricts the collection once.
-/

namespace Bookkeeping

namespace Catalog

mutual

/-- The collection with the tables joined that the leaves of a condition need. -/
def prepare (catalog : Catalog) : Condition → Collection → Except RuleError Collection
  | .leaf typeKey _ _, collection => do
    let type ← catalog.conditionType typeKey
    return type.prepare collection
  | .compound _ children, collection => catalog.prepareForest children collection

/-- The collection with the tables joined that the leaves of a forest need. -/
def prepareForest (catalog : Catalog) : List Condition → Collection →
    Except RuleError Collection
  | [], collection => .ok collection
  | condition :: rest, collection => do
    let prepared ← catalog.prepare condition collection
    catalog.prepareForest rest prepared

end

/-- The connective of a compound node, which has to have children. -/
def connective (operator : String) (children : List Condition) :
    Except RuleError Connective :=
  match Connective.ofKey? operator with
  | some op =>
    if children.isEmpty then .error (.malformedCompound operator children.length) else .ok op
  | none => .error (.malformedCompound operator children.length)

/-- The predicate of parts joined by a connective. -/
def junction : Connective → List Predicate → Predicate
  | .and => Predicate.conjunction
  | .or => Predicate.disjunction

mutual

/-- The predicate of a condition. -/
def predicate (catalog : Catalog) : Condition → Except RuleError Predicate
  | .leaf typeKey operator value => do
    let type ← catalog.conditionType typeKey
    type.build operator value
  | .compound operator children => do
    let op ← connective operator children
    let parts ← catalog.predicates children
    return junction op parts

/-- The predicates of the conditions of a forest. -/
def predicates (catalog : Catalog) : List Condition → Except RuleError (List Predicate)
  | [] => .ok []
  | condition :: rest => do
    let first ← catalog.predicate condition
    let others ← catalog.predicates rest
    return first :: others

end

/-- The predicate of the first day a rule applies to. -/
def datePredicate (catalog : Catalog) : Option Date → Except RuleError (List Predicate)
  | some date => (catalog.effectiveDate.build Operator.gte.key (.date date)).map ([·])
  | none => .ok []

/-- The one predicate of a whole forest and a first day. -/
def combined (catalog : Catalog) (conditions : List Condition) (since : Option Date) :
    Except RuleError Predicate := do
  let parts ← catalog.predicates conditions
  let bound ← catalog.datePredicate since
  return Predicate.conjunction (parts ++ bound)

/-- The collection with the tables joined that a forest and a first day need. -/
def prepareAll (catalog : Catalog) (conditions : List Condition) (since : Option Date)
    (collection : Collection) : Except RuleError Collection := do
  let prepared ← catalog.prepareForest conditions collection
  match since with
  | some _ => return catalog.effectiveDate.prepare prepared
  | none => return prepared

end Catalog

/-- Refuses a forest that nests deeper than the limit. -/
def Settings.checkDepth (settings : Settings) (conditions : List Condition) :
    Except RuleError Unit :=
  let depth := Condition.forestDepth conditions
  if settings.maxDepth < depth then .error (.tooDeep depth settings.maxDepth) else .ok ()

namespace Registry

/-- The records of a collection that satisfy every condition of a forest and are dated on or
after the first day. -/
def evaluateFrom (registry : Registry) (collection : Collection) (conditions : List Condition)
    (since : Option Date) : Except RuleError Collection := do
  registry.settings.checkDepth conditions
  let prepared ← registry.catalog.prepareAll conditions since collection
  let predicate ← registry.catalog.combined conditions since
  return prepared.restrict predicate

/-- The records in scope that satisfy every condition. -/
def evaluate (registry : Registry) (conditions : List Condition) : Except RuleError Collection :=
  registry.evaluateFrom registry.base conditions none

/-- The records of a collection that satisfy every condition. -/
def evaluateWithin (registry : Registry) (collection : Collection)
    (conditions : List Condition) : Except RuleError Collection :=
  registry.evaluateFrom collection conditions none

end Registry

/-- The records in scope that a rule matches. -/
def Rule.matching (rule : Rule) (registry : Registry) : Except RuleError Collection :=
  registry.evaluateFrom registry.base rule.conditions rule.effectiveDate

end Bookkeeping
