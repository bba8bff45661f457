import Bookkeeping.Proofs.Rule.Application

/-!
# Written values, asked for again

An action enters a value into each record that it writes, and a condition on the same column can
ask for that value. A condition on a name or on a merchant reads the value as a text and compares
it with what is stored. What a rule gives is stored as a text too; what a provider suggests is
stored as it is, and is found again only if it is one.
-/

namespace Bookkeeping

/-- The value is a text, and not something else that can be read as one. -/
def Value.IsText (value : Value) : Prop :=
  ∃ text, value = .text text

/-- Where a value is read as a text, that text is the value itself for texts only. -/
theorem Value.eq_text_iff {value : Value} {text : String} (h : value.text? = some text) :
    value = .text text ↔ value.IsText := by
  constructor
  · exact fun hvalue => ⟨text, hvalue⟩
  · rintro ⟨other, rfl⟩
    rw [Option.some.inj h]

/-- Asking for equality with what is read as a text asks for that text. -/
theorem ConditionType.build_eq_of_text? {type : ConditionType} {value : Value} {text : String}
    (hkind : type.kind = .text ∨ type.kind = .select) (htext : value.text? = some text)
    (hoffers : type.offers (.text text) = true) :
    type.build "=" value = .ok (.compare type.column .eq (.text text)) := by
  refine build_eq_ok_iff.2 ⟨.eq, ?_, rfl, .text text, ?_, hoffers, rfl⟩
  · rcases hkind with hkind | hkind <;> simp [hkind, ConditionKind.operators]
  · rcases hkind with hkind | hkind <;> simp [hkind, ConditionKind.read?, htext]

/-- What a rule gives to write is written as a text. -/
theorem ActionType.isText_of_check {type : ActionType} {given value : Value}
    (heffect : type.effect ≠ .enrich) (h : type.check given = .ok value) : value.IsText := by
  unfold check at h
  split at h
  · split at h
    · cases h
    · split at h
      · exact ⟨_, (Except.ok.inj h).symm⟩
      · cases h
  · split at h
    · cases h
    · split at h
      · cases h
      · exact ⟨_, (Except.ok.inj h).symm⟩
  · rename_i hother
    exact absurd hother heffect

/-- A chosen option is one that the type accepts. -/
theorem ActionType.accepts_of_check {type : ActionType} {given value : Value}
    (heffect : type.effect = .assign) (h : type.check given = .ok value) :
    type.accepts value = true := by
  unfold check at h
  rw [heffect] at h
  dsimp only at h
  split at h
  · cases h
  · split at h
    · rename_i hoffered
      obtain rfl := Except.ok.inj h
      unfold accepts
      split
      · rename_i options hoptions
        simpa [hoptions, Value.text?] using hoffered
      · rfl
    · cases h

namespace Writes

variable {type : ActionType} {value : Value} {source : String} {reached : List Nat}
  {entries : List Enrichment} {entry : Enrichment}

/-- No record is written twice. -/
theorem nodup_record (h : Writes type value source reached entries) (hreached : reached.Nodup) :
    (entries.map Enrichment.record).Nodup := by
  cases h with
  | every =>
    rw [List.map_map]
    exact hreached.map fun _ _ hsame => hsame
  | suggested _ hrecords => exact hreached.sublist hrecords

/-- An entry is about a record that was reached. -/
theorem record_mem (h : Writes type value source reached entries) (hmem : entry ∈ entries) :
    entry.record ∈ reached := by
  cases h with
  | every =>
    obtain ⟨id, hid, rfl⟩ := List.mem_map.1 hmem
    exact hid
  | suggested _ hrecords => exact hrecords.subset (List.mem_map_of_mem hmem)

/-- An entry is about the column of the action type. -/
theorem column_eq (h : Writes type value source reached entries) (hmem : entry ∈ entries) :
    entry.column = type.column := by
  cases h with
  | every =>
    obtain ⟨id, -, rfl⟩ := List.mem_map.1 hmem
    rfl
  | suggested _ _ hentries => exact (hentries entry hmem).1

/-- Without a provider an entry has the value of the action. -/
theorem value_eq (h : Writes type value source reached entries) (heffect : type.effect ≠ .enrich)
    (hmem : entry ∈ entries) : entry.value = value := by
  cases h with
  | every =>
    obtain ⟨id, -, rfl⟩ := List.mem_map.1 hmem
    rfl
  | suggested henrich => exact absurd henrich heffect

/-- What is chosen or suggested is accepted by the type. -/
theorem accepts (h : Writes type value source reached entries) {given : Value}
    (hvalue : type.check given = .ok value) (heffect : type.effect ≠ .setText)
    (hmem : entry ∈ entries) : type.accepts entry.value = true := by
  cases h with
  | every henrich =>
    have hassign : type.effect = .assign := by
      cases h : type.effect with
      | assign => rfl
      | setText => exact absurd h heffect
      | enrich => exact absurd h henrich
    obtain ⟨id, -, rfl⟩ := List.mem_map.1 hmem
    exact ActionType.accepts_of_check hassign hvalue
  | suggested _ _ hentries => exact (hentries entry hmem).2.2

/-- A record holds what has been written into it. -/
theorem get?_of_mem {store : Store} {collection : Collection}
    (h : Writes type value source ((store.select collection).map Record.id) entries)
    (hmem : entry ∈ entries) :
    ∃ record, (store.enterAll entries).find? entry.record = some record ∧
      record.fields.get? type.column = some entry.value := by
  have hnodup : ((store.select collection).map Record.id).Nodup :=
    store.nodup_map_id.sublist (List.filter_sublist.map _)
  obtain ⟨record, hselected, hid⟩ := List.mem_map.1 (h.record_mem hmem)
  have hstored := (List.mem_filter.1 hselected).1
  refine ⟨record.enterAll entries, ?_, ?_⟩
  · rw [Store.find?_enterAll, Store.find?_eq_some_iff.2 ⟨hstored, hid⟩]
    rfl
  · rw [← h.column_eq hmem]
    exact Record.get?_enterAll_of_mem (h.nodup_record hnodup) hmem hid.symm

end Writes

namespace Transaction

variable {vocabulary : Vocabulary}

section Columns

variable {type : ActionType} (htype : type ∈ actions vocabulary)
include htype

/-- Names are written by rules alone. -/
theorem effect_of_column_eq_name (h : type.column = name) : type.effect = .setText := by
  simp only [actions, List.mem_cons, List.not_mem_nil, or_false] at htype
  rcases htype with rfl | rfl | rfl | rfl | rfl
  · exact absurd h (by decide : category ≠ name)
  · exact absurd h (by decide : merchant ≠ name)
  · rfl
  · exact absurd h (by decide : category ≠ name)
  · exact absurd h (by decide : merchant ≠ name)

/-- A merchant is chosen or suggested from those of the owner. -/
theorem options_of_column_eq_merchant (h : type.column = merchant) :
    type.options = some vocabulary.merchants ∧ type.effect ≠ .setText := by
  simp only [actions, List.mem_cons, List.not_mem_nil, or_false] at htype
  rcases htype with rfl | rfl | rfl | rfl | rfl
  · exact absurd h (by decide : category ≠ merchant)
  · exact ⟨rfl, by simp⟩
  · exact absurd h (by decide : name ≠ merchant)
  · exact absurd h (by decide : category ≠ merchant)
  · exact ⟨rfl, by simp⟩

end Columns

/-- A condition type is found under its key. -/
theorem conditionType_key {condition : ConditionType} (h : condition ∈ conditions vocabulary) :
    (catalog vocabulary).conditionType condition.key = .ok condition := by
  simp only [conditions, List.mem_cons, List.not_mem_nil, or_false] at h
  rcases h with rfl | rfl | rfl <;> rfl

/-- What an action of the domain writes into a column is what a condition on that column reads as
a text and, for a merchant, offers. -/
theorem exists_text_of_writes {type : ActionType} {condition : ConditionType}
    {given value : Value} {source : String} {reached : List Nat} {entries : List Enrichment}
    {entry : Enrichment} (htype : type ∈ actions vocabulary)
    (hcondition : condition ∈ conditions vocabulary) (hcolumn : condition.column = type.column)
    (hvalue : type.check given = .ok value)
    (hwrites : Writes type value source reached entries) (hmem : entry ∈ entries) :
    (condition.kind = .text ∨ condition.kind = .select) ∧
      ∃ text, entry.value.text? = some text ∧ condition.offers (.text text) = true := by
  simp only [conditions, List.mem_cons, List.not_mem_nil, or_false] at hcondition
  rcases hcondition with rfl | rfl | rfl
  · have heffect : type.effect ≠ .enrich := by
      simp [effect_of_column_eq_name htype hcolumn.symm]
    obtain ⟨text, rfl⟩ := ActionType.isText_of_check heffect hvalue
    refine ⟨.inl rfl, text, ?_, rfl⟩
    rw [hwrites.value_eq heffect hmem]
    rfl
  · have hwritten := column_mem_of_mem_actions htype
    rw [← hcolumn] at hwritten
    exact absurd hwritten (by decide : amount ∉ [category, merchant, name])
  · obtain ⟨hoptions, heffect⟩ := options_of_column_eq_merchant htype hcolumn.symm
    have haccepts := hwrites.accepts hvalue heffect hmem
    rw [ActionType.accepts, hoptions] at haccepts
    obtain ⟨text, htext, hoffered⟩ := (Option.any_eq_true _ _).1 haccepts
    exact ⟨.inr rfl, text, htext, hoffered⟩

/-- **Visibility.** An action that is performed enters a value into each record that it writes.
The record holds the value then, and a condition on the same column can ask for it by equality: the
record satisfies that condition if and only if the value is a text. What a rule gives is entered as
a text, so that only a suggestion can be missed. -/
theorem execute_visible_iff {registry : Registry} (hcatalog : registry.catalog = catalog vocabulary)
    {action : Action} {collection : Collection} {ignoreLocks : Bool} {outage : Outage}
    {world after : World} {written : Nat}
    (h : (registry.execute action collection ignoreLocks).run outage world =
      (.ok written, after)) :
    ∃ type entries, registry.catalog.actionType action.typeKey = .ok type ∧
      after.store = world.store.enterAll entries ∧ entries.length = written ∧
      (type.effect ≠ .enrich → ∀ entry ∈ entries, entry.value.IsText) ∧
      ∀ condition ∈ conditions vocabulary, condition.column = type.column → ∀ entry ∈ entries,
        ∃ record p, after.store.find? entry.record = some record ∧
          record.fields.get? condition.column = some entry.value ∧
          registry.catalog.predicate (.leaf condition.key "=" entry.value) = .ok p ∧
          (p.holds record.fields.get? = true ↔ entry.value.IsText) := by
  obtain ⟨type, value, entries, htype, hvalue, hwrites, hwritten, hstore⟩ :=
    Registry.writes_execute h
  refine ⟨type, entries, htype, hstore, hwritten.symm, fun heffect entry hmem => ?_,
    fun condition hcondition hcolumn entry hmem => ?_⟩
  · rw [hwrites.value_eq heffect hmem]
    exact ActionType.isText_of_check heffect hvalue
  · obtain ⟨record, hfind, hholds⟩ := hwrites.get?_of_mem hmem
    have hdeclared := (Catalog.mem_actions_of_actionType htype).1
    rw [hcatalog] at hdeclared ⊢
    obtain ⟨hkind, text, htext, hoffers⟩ :=
      exists_text_of_writes hdeclared hcondition hcolumn hvalue hwrites hmem
    rw [← hcolumn] at hholds
    refine ⟨record, .compare condition.column .eq (.text text), hstore ▸ hfind, hholds, ?_, ?_⟩
    · exact Catalog.predicate_leaf_eq_ok_iff.2 ⟨condition, conditionType_key hcondition,
        ConditionType.build_eq_of_text? hkind htext hoffers⟩
    · rw [Predicate.holds, comparison_eq_iff order?_text_iff, hholds, Option.some.injEq,
        Value.eq_text_iff htext]

end Transaction

namespace Sample

/-- A merchant whose identifier is a numeral. -/
def numbered : Vocabulary where
  merchants := [⟨"Five", "5"⟩]

/-- One transaction, without a merchant. -/
def unassigned : Store :=
  Transaction.emptyStore.insert 1 []

/-- The registry of the transaction with a provider that suggests a value for it. -/
def suggesting (value : Value) : Registry :=
  Transaction.registry unassigned 1 numbered (some fun _ _ => .ok [⟨1, value⟩]) {}

/-- A merchant is wanted. -/
def detect : Action :=
  ⟨"auto_detect_merchants", .text "by name"⟩

end Sample

/-- A merchant that is suggested as a text is found by the condition for it. -/
theorem Transaction.execute_visible_iff_suggested :
    ∃ after p,
      ((Sample.suggesting (.text "5")).execute Sample.detect
        (Sample.suggesting (.text "5")).base false).run .none { store := Sample.unassigned } =
          (.ok 1, after) ∧
      (Sample.suggesting (.text "5")).catalog.predicate
        (.leaf "transaction_merchant" "=" (.text "5")) = .ok p ∧
      ∃ record, after.store.find? 1 = some record ∧ p.holds record.fields.get? = true := by
  have hrun : (((Sample.suggesting (.text "5")).execute Sample.detect
      (Sample.suggesting (.text "5")).base false).run .none
        { store := Sample.unassigned }).1 = .ok 1 := rfl
  obtain ⟨type, entries, htype, hstore, -, -, hconditions⟩ :=
    @Transaction.execute_visible_iff Sample.numbered _ rfl _ _ _ _ _ _ _ (Prod.ext hrun rfl)
  have hcolumn : Transaction.merchant = type.column :=
    Except.ok.inj (congrArg (Except.map ActionType.column) htype)
  have hentries : [⟨1, Transaction.merchant, .text "5", "rule"⟩] = entries := by
    have hlog := congrArg Store.log hstore
    rw [Store.log_enterAll] at hlog
    exact hlog
  obtain ⟨record, p, hfind, -, hpredicate, hholds⟩ :=
    hconditions (Transaction.merchantCondition Sample.numbered)
      (by simp [Transaction.conditions]) hcolumn ⟨1, Transaction.merchant, .text "5", "rule"⟩
      (by simp [← hentries])
  exact ⟨_, p, Prod.ext hrun rfl, hpredicate, record, hfind, hholds.2 ⟨"5", rfl⟩⟩

/-- A merchant that is suggested as a number is accepted and written, and the condition for that
very number misses it. -/
theorem Transaction.execute_visible_missed :
    ∃ after p,
      ((Sample.suggesting (.int 5)).execute Sample.detect
        (Sample.suggesting (.int 5)).base false).run .none { store := Sample.unassigned } =
          (.ok 1, after) ∧
      after.store.get? 1 Transaction.merchant = some (.int 5) ∧
      (Sample.suggesting (.int 5)).catalog.predicate
        (.leaf "transaction_merchant" "=" (.int 5)) = .ok p ∧
      p.holds (after.store.get? 1) = false := by
  refine ⟨_, .compare Transaction.merchant .eq (.text "5"), Prod.ext ?_ rfl, ?_, ?_, ?_⟩
  · decide +kernel
  · decide +kernel
  · rfl
  · decide +kernel

end Bookkeeping
