import Bookkeeping.Json.Restored
import Bookkeeping.Proofs.Condition.Tree
import Bookkeeping.Proofs.Date.Text

/-!
# Documents that are read back

A rule is read back from its own document, and so are its parts. What comes back is what was
written, but for the values that are days: a document does not tell the text of a day from the day,
and every text is taken for a text.
-/

namespace Bookkeeping

open Bookkeeping.Text (toInt64?_eq_some_iff)

namespace Json

/-- An item is no deeper than the deepest one. -/
theorem depth_le_itemsDepth {items : List Json} {item : Json} (h : item ∈ items) :
    item.depth ≤ itemsDepth items := by
  induction items with
  | nil => cases h
  | cons first rest ih =>
    rw [itemsDepth]
    rcases List.mem_cons.1 h with rfl | hrest
    · exact Nat.le_max_left ..
    · exact Nat.le_trans (ih hrest) (Nat.le_max_right ..)

private theorem optional_some {α : Type} (default : α) (read : Json → Option α) (json : Json) :
    optional default read (some json) = read json :=
  rfl

private theorem nat64?_whole {n : Nat} (h : n < UInt64.size) : nat64? (.whole n) = some n := by
  have hrange : (0 : Int) ≤ n ∧ (n : Int) < UInt64.size :=
    ⟨Int.natCast_nonneg n, Int.ofNat_lt.2 h⟩
  rw [nat64?, if_pos hrange, Int.toNat_natCast]

/-- Items that each come back come back together. -/
theorem mapM_map_eq_some {α β : Type} {write : α → Json} {read : Json → Option β} {back : α → β}
    {items : List α} (h : ∀ item ∈ items, read (write item) = some (back item)) :
    (items.map write).mapM read = some (items.map back) := by
  induction items with
  | nil => rfl
  | cons first rest ih =>
    obtain ⟨hfirst, hrest⟩ := List.forall_mem_cons.1 h
    rw [List.map_cons, List.mapM_cons, hfirst, ih hrest]
    rfl

end Json

/-- A change leaves a list as it is if it does so with each item. -/
theorem map_eq_self_iff {α : Type} {change : α → α} {items : List α} :
    items.map change = items ↔ ∀ item ∈ items, change item = item := by
  induction items with
  | nil => simp
  | cons first rest ih => rw [List.map_cons, List.cons.injEq, ih, List.forall_mem_cons]

/-- The value is a decimal. -/
def Value.IsDecimal (value : Value) : Prop :=
  ∃ x, value = .decimal x

/-- The value is a day. -/
def Value.IsDate (value : Value) : Prop :=
  ∃ d, value = .date d

/-- The value with its day, if it is one, as text. -/
def Value.undated : Value → Value
  | .date d => .text d.text
  | value => value

namespace Value

private theorem undated_eq_iff {value : Value} : value.undated = value ↔ ¬value.IsDate := by
  cases value <;> simp [undated, IsDate]

/-- A value that is no decimal comes back, a day as text. -/
theorem ofJson?_toJson {value : Value} (h : ¬value.IsDecimal) :
    ofJson? value.toJson = some value.undated := by
  cases value with
  | int n => simp only [toJson, ofJson?, toInt64?_eq_some_iff.2 rfl, undated]
  | decimal x => exact absurd ⟨x, rfl⟩ h
  | flag b => rfl
  | text s => rfl
  | date d => rfl

end Value

namespace Condition

mutual

/-- The condition with days as text. -/
def undated : Condition → Condition
  | .leaf typeKey operator value => .leaf typeKey operator value.undated
  | .compound operator children => .compound operator (undatedForest children)

/-- The conditions of a forest with days as text. -/
def undatedForest : List Condition → List Condition
  | [] => []
  | condition :: rest => undated condition :: undatedForest rest

end

mutual

/-- The values of a condition, from left to right. -/
def values : Condition → List Value
  | .leaf _ _ value => [value]
  | .compound _ children => forestValues children

/-- The values of a forest, from left to right. -/
def forestValues : List Condition → List Value
  | [] => []
  | condition :: rest => values condition ++ forestValues rest

end

/-- Days become text in each condition of a forest. -/
theorem undatedForest_eq_map (forest : List Condition) :
    undatedForest forest = forest.map undated := by
  induction forest with
  | nil => rw [undatedForest, List.map_nil]
  | cons condition rest ih => rw [undatedForest, ih, List.map_cons]

private theorem forestToJson_eq_map (forest : List Condition) :
    forestToJson forest = forest.map toJson := by
  induction forest with
  | nil => rw [forestToJson, List.map_nil]
  | cons condition rest ih => rw [forestToJson, ih, List.map_cons]

private theorem mem_forestValues_iff {forest : List Condition} {value : Value} :
    value ∈ forestValues forest ↔ ∃ condition ∈ forest, value ∈ condition.values := by
  induction forest with
  | nil => simp [forestValues]
  | cons condition rest ih => simp [forestValues, ih]

/-- A forest stays as it is if its conditions do. -/
theorem undatedForest_eq_iff_of_each {forest : List Condition}
    (h : ∀ condition ∈ forest,
      (condition.undated = condition ↔ ∀ value ∈ condition.values, ¬value.IsDate)) :
    undatedForest forest = forest ↔ ∀ value ∈ forestValues forest, ¬value.IsDate := by
  rw [undatedForest_eq_map, map_eq_self_iff]
  constructor
  · intro hkept value hvalue
    obtain ⟨condition, hcondition, hmem⟩ := mem_forestValues_iff.1 hvalue
    exact (h condition hcondition).1 (hkept condition hcondition) value hmem
  · intro hnone condition hcondition
    exact (h condition hcondition).2 fun value hmem =>
      hnone value (mem_forestValues_iff.2 ⟨condition, hcondition, hmem⟩)

/-- A condition stays as it is if none of its values is a day. -/
theorem undated_eq_iff {condition : Condition} :
    condition.undated = condition ↔ ∀ value ∈ condition.values, ¬value.IsDate := by
  induction condition using child_induction with
  | leaf typeKey operator value => simp [undated, values, Value.undated_eq_iff]
  | compound operator children ih =>
    rw [undated, values, compound.injEq, eq_self, true_and, undatedForest_eq_iff_of_each ih]

private theorem undatedForest_eq_iff {forest : List Condition} :
    undatedForest forest = forest ↔ ∀ value ∈ forestValues forest, ¬value.IsDate :=
  undatedForest_eq_iff_of_each fun _ _ => undated_eq_iff

/-- The document of a condition nests at least as deep as the condition. -/
theorem depth_le_depth_toJson (condition : Condition) :
    condition.depth ≤ condition.toJson.depth := by
  induction condition using child_induction with
  | leaf typeKey operator value =>
    rw [depth]
    exact Nat.zero_le _
  | compound operator children ih =>
    have hchildren : forestDepth children ≤ Json.itemsDepth (forestToJson children) := by
      refine forestDepth_le_iff.2 fun child hchild => ?_
      have hitem : child.toJson ∈ forestToJson children := by
        rw [forestToJson_eq_map]
        exact List.mem_map_of_mem hchild
      exact Nat.le_trans (ih child hchild) (Json.depth_le_itemsDepth hitem)
    rw [depth, toJson]
    simp only [Json.depth, Json.membersDepth]
    omega

private theorem kinded?_leaf (inner : Bool) (typeKey operator : String) (value : Value) :
    kinded? inner (leaf typeKey operator value).toJson =
      some (true, .object [("condition_type", .text typeKey), ("operator", .text operator),
        ("value", value.toJson)]) := by
  rw [toJson]
  rfl

private theorem kinded?_compound (inner : Bool) (operator : String) (children : List Condition) :
    kinded? inner (compound operator children).toJson =
      some (false, .object [("operator", .text operator),
        ("children", .array (forestToJson children))]) := by
  rw [toJson]
  rfl

/-- A condition without decimals comes back, its days as text. -/
theorem ofJsonWithin?_toJson {condition : Condition}
    (h : ∀ value ∈ condition.values, ¬value.IsDecimal) {bound : Nat}
    (hbound : condition.depth < bound) (inner : Bool) :
    ofJsonWithin? bound inner condition.toJson = some condition.undated := by
  -- every level takes one off the bound, and below the first one a condition is an inner one
  induction condition using child_induction generalizing bound inner with
  | leaf typeKey operator value =>
    have hvalue := Value.ofJson?_toJson (h value (by simp [values]))
    obtain ⟨bound, rfl⟩ := Nat.exists_eq_add_one_of_ne_zero (Nat.ne_zero_of_lt hbound)
    have hnamed : Json.named? ["condition_type", "operator", "value"]
        (.object [("condition_type", .text typeKey), ("operator", .text operator),
          ("value", value.toJson)]) =
        some [some (.text typeKey), some (.text operator), some value.toJson] := rfl
    rw [ofJsonWithin?, kinded?_leaf]
    simp only [Option.bind_eq_bind, Option.bind_some, if_true, hnamed, Json.text?, hvalue, undated]
    rfl
  | compound operator children ih =>
    obtain ⟨bound, rfl⟩ := Nat.exists_eq_add_one_of_ne_zero (Nat.ne_zero_of_lt hbound)
    have hnamed : Json.named? ["operator", "children"]
        (.object [("operator", .text operator), ("children", .array (forestToJson children))]) =
        some [some (.text operator), some (.array (forestToJson children))] := rfl
    have hchildren : (forestToJson children).mapM (ofJsonWithin? bound true) =
        some (undatedForest children) := by
      rw [forestToJson_eq_map, undatedForest_eq_map]
      refine Json.mapM_map_eq_some fun child hchild =>
        ih child hchild (fun value hvalue => ?_) ?_ true
      · refine h value ?_
        rw [values, mem_forestValues_iff]
        exact ⟨child, hchild, hvalue⟩
      · rw [depth] at hbound
        have hdepth := forestDepth_le_iff.1 (Nat.le_refl _) child hchild
        omega
    rw [ofJsonWithin?, kinded?_compound]
    simp only [Option.bind_eq_bind, Option.bind_some, Bool.false_eq_true, if_false, hnamed,
      Json.text?, Json.items?, hchildren, undated]
    rfl

private theorem ofJson?_toJson {condition : Condition}
    (h : ∀ value ∈ condition.values, ¬value.IsDecimal) :
    ofJson? condition.toJson = some condition.undated :=
  ofJsonWithin?_toJson h (Nat.lt_succ_of_le condition.depth_le_depth_toJson) false

end Condition

namespace Action

/-- The action with a day as text. -/
def undated (action : Action) : Action :=
  { action with value := action.value.undated }

private theorem undated_eq_iff {action : Action} :
    action.undated = action ↔ ¬action.value.IsDate := by
  rw [← Value.undated_eq_iff]
  constructor
  · exact congrArg Action.value
  · intro h
    rw [undated, h]

private theorem ofJson?_toJson {action : Action} (h : ¬action.value.IsDecimal) :
    ofJson? action.toJson = some action.undated := by
  have hnamed : Json.named? ["action_type", "value"] action.toJson =
      some [some (.text action.typeKey), some action.value.toJson] := rfl
  rw [ofJson?, hnamed]
  simp only [Option.bind_eq_bind, Option.bind_some, Json.text?, Value.ofJson?_toJson h]
  rfl

end Action

/-- A date comes back from its text. -/
theorem Date.ofJson?_text (d : Date) : Date.ofJson? (.text d.text) = some d :=
  Date.read?_text true d

namespace Rule

/-- The rule with the days among its values as text. -/
def undated (rule : Rule) : Rule :=
  { rule with
    conditions := Condition.undatedForest rule.conditions
    actions := rule.actions.map Action.undated }

/-- The values of the conditions and of the actions. -/
def values (rule : Rule) : List Value :=
  Condition.forestValues rule.conditions ++ rule.actions.map Action.value

/-- A rule stays as it is when no value in it is a day. -/
theorem undated_eq_iff {rule : Rule} :
    rule.undated = rule ↔ ∀ value ∈ rule.values, ¬value.IsDate := by
  have hparts : rule.undated = rule ↔
      Condition.undatedForest rule.conditions = rule.conditions ∧
        rule.actions.map Action.undated = rule.actions := by
    constructor
    · exact fun h => ⟨congrArg Rule.conditions h, congrArg Rule.actions h⟩
    · rintro ⟨hconditions, hactions⟩
      rw [undated, hconditions, hactions]
  rw [hparts, Condition.undatedForest_eq_iff, map_eq_self_iff, values, List.forall_mem_append,
    List.forall_mem_map]
  simp only [Action.undated_eq_iff]

/-- A rule has all of its members in its document, but for a name and a first day that it does not
have. -/
theorem named?_toJson (rule : Rule) :
    Json.named? members rule.toJson =
      some [rule.name.map Json.text, some rule.domain.toJson, some (.flag rule.active),
        rule.effectiveDate.map (Json.text ·.text),
        some (.array (Condition.forestToJson rule.conditions)),
        some (.array (rule.actions.map Action.toJson))] := by
  rw [toJson]
  cases rule.name with
  | none =>
    cases rule.effectiveDate with
    | none => rfl
    | some first => rfl
  | some name =>
    cases rule.effectiveDate with
    | none => rfl
    | some first => rfl

/-- A rule without decimals comes back, the days among its values as text. -/
theorem ofJson?_toJson {rule : Rule} (h : ∀ value ∈ rule.values, ¬value.IsDecimal) :
    ofJson? rule.toJson = some rule.undated := by
  obtain ⟨hconditions, hactions⟩ := List.forall_mem_append.1 h
  have hname : Json.optional none (Json.orNull Json.text?) (rule.name.map Json.text) =
      some rule.name := by
    cases rule.name <;> rfl
  have hfirst : Json.optional none (Json.orNull Date.ofJson?)
      (rule.effectiveDate.map (Json.text ·.text)) = some rule.effectiveDate := by
    cases rule.effectiveDate with
    | none => rfl
    | some first =>
      rw [Option.map_some, Json.optional, Json.orNull, Date.ofJson?_text, Option.map_some]
      intro h
      cases h
  have hforest : (Condition.forestToJson rule.conditions).mapM Condition.ofJson? =
      some (Condition.undatedForest rule.conditions) := by
    rw [Condition.forestToJson_eq_map, Condition.undatedForest_eq_map]
    refine Json.mapM_map_eq_some fun condition hcondition => ?_
    exact Condition.ofJson?_toJson fun value hvalue =>
      hconditions value (Condition.mem_forestValues_iff.2 ⟨condition, hcondition, hvalue⟩)
  have hperformed : (rule.actions.map Action.toJson).mapM Action.ofJson? =
      some (rule.actions.map Action.undated) :=
    Json.mapM_map_eq_some fun action haction =>
      Action.ofJson?_toJson (hactions _ (List.mem_map_of_mem haction))
  have hdomain : Domain.ofJson? rule.domain.toJson = some rule.domain := by
    cases rule.domain
    rfl
  rw [ofJson?, named?_toJson]
  simp only [Option.bind_eq_bind, Option.bind_some, hname, hdomain, hfirst, Json.optional_some,
    Json.flag?, Json.items?, hforest, hperformed]
  rfl

end Rule

namespace ConditionRow

/-- The numbers of the row are of 64 bits. -/
structure Sized (row : ConditionRow) : Prop where
  id : row.id < UInt64.size
  parent : ∀ parent ∈ row.parent, parent < UInt64.size
  position : row.position < UInt64.size

/-- The row with a day as text. -/
def undated (row : ConditionRow) : ConditionRow :=
  { row with value := row.value.map Value.undated }

private theorem undated_eq_iff {row : ConditionRow} :
    row.undated = row ↔ ∀ value ∈ row.value, ¬value.IsDate := by
  have hvalue : row.undated = row ↔ row.value.map Value.undated = row.value := by
    constructor
    · exact congrArg ConditionRow.value
    · intro h
      rw [undated, h]
  rw [hvalue]
  cases row.value with
  | none => simp
  | some value => simp [Value.undated_eq_iff]

/-- A row is read from its members, whatever documents they are. -/
theorem ofJson?_of_members {row : ConditionRow}
    {json id parent position typeKey operator value : Json} (hlong : json.isShort 6 = false)
    (hnamed : Json.named? ["id", "parent_id", "position", "condition_type", "operator", "value"]
      json = some [some id, some parent, some position, some typeKey, some operator, some value])
    (hid : id.nat64? = some row.id) (hparent : Json.orNull Json.nat64? parent = some row.parent)
    (hposition : position.nat64? = some row.position) (htypeKey : typeKey.text? = some row.typeKey)
    (hoperator : operator.text? = some row.operator)
    (hvalue : Json.orNull Value.ofJson? value = some row.value) :
    ofJson? json = some row := by
  simp only [ofJson?, List.length_cons, List.length_nil, hlong, hnamed, Option.bind_eq_bind,
    Option.bind_some, Json.optional_some, hid, hparent, hposition, htypeKey, hoperator, hvalue]
  rfl

/-- A row without a decimal comes back, a day as text. -/
theorem ofJson?_toJson {row : ConditionRow} (hsized : row.Sized)
    (h : ∀ value ∈ row.value, ¬value.IsDecimal) :
    ofJson? row.toJson = some row.undated := by
  have hparent : Json.orNull Json.nat64? (row.parent.elim .null fun id => .whole id) =
      some row.parent := by
    cases hrow : row.parent with
    | none => rfl
    | some parent =>
      rw [Option.elim_some, Json.orNull, Json.nat64?_whole (hsized.parent parent hrow),
        Option.map_some]
      intro h
      cases h
  have hvalue : Json.orNull Value.ofJson? (row.value.elim .null Value.toJson) =
      some (row.value.map Value.undated) := by
    cases hrow : row.value with
    | none => rfl
    | some value =>
      rw [Option.elim_some, Json.orNull, Value.ofJson?_toJson (h value hrow), Option.map_some,
        Option.map_some]
      intro h
      cases value <;> cases h
  exact ofJson?_of_members rfl rfl (Json.nat64?_whole hsized.id) hparent
    (Json.nat64?_whole hsized.position) rfl rfl hvalue

end ConditionRow

/-- What documents are kept of. -/
inductive DocumentKind where
  | rule
  | condition
  | action
  | row

namespace DocumentKind

/-- What a document of the kind is kept of. -/
abbrev Stored : DocumentKind → Type
  | .rule => Rule
  | .condition => Condition
  | .action => Action
  | .row => ConditionRow

/-- The document of something. -/
def toJson : (kind : DocumentKind) → kind.Stored → Json
  | .rule => Rule.toJson
  | .condition => Condition.toJson
  | .action => Action.toJson
  | .row => ConditionRow.toJson

/-- Reads a document of the kind. -/
def ofJson? : (kind : DocumentKind) → Json → Option kind.Stored
  | .rule => Rule.ofJson?
  | .condition => Condition.ofJson?
  | .action => Action.ofJson?
  | .row => ConditionRow.ofJson?

/-- The values that something holds. -/
def values : (kind : DocumentKind) → kind.Stored → List Value
  | .rule, stored => Rule.values stored
  | .condition, stored => Condition.values stored
  | .action, stored => [Action.value stored]
  | .row, stored => (ConditionRow.value stored).toList

/-- The same with the days among the values as text. -/
def undated : (kind : DocumentKind) → kind.Stored → kind.Stored
  | .rule => Rule.undated
  | .condition => Condition.undated
  | .action => Action.undated
  | .row => ConditionRow.undated

/-- The numbers of a row are of 64 bits; nothing else has numbers but among its values. -/
def Sized : (kind : DocumentKind) → kind.Stored → Prop
  | .row, stored => ConditionRow.Sized stored
  | _, _ => True

/-- Only days among the values make a difference. -/
theorem undated_eq_iff (kind : DocumentKind) (stored : kind.Stored) :
    kind.undated stored = stored ↔ ∀ value ∈ kind.values stored, ¬value.IsDate := by
  cases kind with
  | rule => exact Rule.undated_eq_iff
  | condition => exact Condition.undated_eq_iff
  | action =>
    rw [values, List.forall_mem_singleton]
    exact Action.undated_eq_iff
  | row =>
    simp only [values, Option.mem_toList]
    exact ConditionRow.undated_eq_iff

/-- What has no decimal among its values comes back, the days among them as text. -/
theorem ofJson?_toJson {kind : DocumentKind} {stored : kind.Stored} (hsized : kind.Sized stored)
    (h : ∀ value ∈ kind.values stored, ¬value.IsDecimal) :
    kind.ofJson? (kind.toJson stored) = some (kind.undated stored) := by
  cases kind with
  | rule => exact Rule.ofJson?_toJson h
  | condition => exact Condition.ofJson?_toJson h
  | action =>
    rw [values, List.forall_mem_singleton] at h
    exact Action.ofJson?_toJson h
  | row =>
    refine ConditionRow.ofJson?_toJson hsized fun value hvalue => ?_
    exact h value (Option.mem_toList.2 hvalue)

/-- **Documents.** A rule, a condition, an action or a row without decimals among its values comes
back from its document with all that it holds, but for the days among its values, which come back
as text. So what comes back is equal exactly if no value is a day. The first day of a rule is no
such value. -/
theorem ofJson?_toJson_eq_iff {kind : DocumentKind} {stored : kind.Stored}
    (hsized : kind.Sized stored) (h : ∀ value ∈ kind.values stored, ¬value.IsDecimal) :
    kind.ofJson? (kind.toJson stored) = some (kind.undated stored) ∧
      (kind.ofJson? (kind.toJson stored) = some stored ↔
        ∀ value ∈ kind.values stored, ¬value.IsDate) := by
  have hread := ofJson?_toJson hsized h
  refine ⟨hread, ?_⟩
  rw [hread, Option.some_inj, kind.undated_eq_iff]

end DocumentKind

namespace Sample

/-- The last day of February 2024. -/
def leapDay : Date := ⟨2024, 2, 29, by decide⟩

/-- What is named by the day, or has an amount of 700, is rent from that day on. -/
def rent (day : Value) : Rule where
  name := some "Rent"
  effectiveDate := some leapDay
  conditions :=
    [.compound "or" [.leaf "transaction_name" "=" day,
      .leaf "transaction_amount" "=" (.int 700)]]
  actions := [⟨"set_transaction_name", .text "Rent"⟩]

/-- The stored form of its first leaf. -/
def rentRow (day : Value) : ConditionRow :=
  ⟨2, some 1, 0, "transaction_name", "=", some day⟩

end Sample

/-- Named by the text of the day the rule and the row come back as they are, and the first day of
the rule as the day that it is. -/
theorem DocumentKind.ofJson?_toJson_eq_iff_rent :
    let rule := Sample.rent (.text "2024-02-29")
    let row := Sample.rentRow (.text "2024-02-29")
    (∀ value ∈ rule.values, ¬value.IsDecimal) ∧ row.Sized ∧
      Rule.ofJson? rule.toJson = some rule ∧ ConditionRow.ofJson? row.toJson = some row := by
  intro rule row
  have hvalues : rule.values = [.text "2024-02-29", .int 700, .text "Rent"] := rfl
  have hexact : ∀ value ∈ rule.values, ¬value.IsDecimal := by
    simp [hvalues, Value.IsDecimal]
  have hundated : ∀ value ∈ rule.values, ¬value.IsDate := by
    simp [hvalues, Value.IsDate]
  have hsized : row.Sized := ⟨by decide, by decide, by decide⟩
  have hrow : DocumentKind.row.values row = [.text "2024-02-29"] := rfl
  have hrule := (@DocumentKind.ofJson?_toJson_eq_iff .rule rule trivial hexact).2.2 hundated
  refine ⟨hexact, hsized, hrule, ?_⟩
  refine (@DocumentKind.ofJson?_toJson_eq_iff .row row hsized ?_).2.2 ?_
  · simp [hrow, Value.IsDecimal]
  · simp [hrow, Value.IsDate]

/-- Named by the day itself the rule comes back changed, with the text in place of the day. -/
theorem DocumentKind.ofJson?_toJson_ne_rent :
    let rule := Sample.rent (.date Sample.leapDay)
    (∀ value ∈ rule.values, ¬value.IsDecimal) ∧
      Rule.ofJson? rule.toJson = some (Sample.rent (.text "2024-02-29")) ∧
      Rule.ofJson? rule.toJson ≠ some rule := by
  intro rule
  have hvalues : rule.values = [.date Sample.leapDay, .int 700, .text "Rent"] := rfl
  have hexact : ∀ value ∈ rule.values, ¬value.IsDecimal := by
    simp [hvalues, Value.IsDecimal]
  have hread : Rule.ofJson? rule.toJson = some (Sample.rent (.text "2024-02-29")) :=
    Rule.ofJson?_toJson hexact
  refine ⟨hexact, hread, ?_⟩
  rw [hread]
  intro hsame
  have hvalue := congrArg Rule.values (Option.some.inj hsame)
  cases hvalue

end Bookkeeping
