import Bookkeeping.Proofs.Rule.Visibility

/-!
# The vocabulary is closed

Whatever rules are applied, and whatever a provider suggests to them, a category or a merchant is
entered only if the owner offers it, a name only if it is a text that is not blank, and nothing is
entered into any other column. This is shown of every call that a job can come to, so it holds of
the jobs that fail as well.
-/

namespace Bookkeeping

open Transaction (category merchant name amount date excluded)

/-- Whatever store serves it, the call makes such entries only. -/
def Call.Enters (allowed : Enrichment → Prop) (call : Call) : Prop :=
  ∀ (store : Store) answer entries, store.Serves call answer entries →
    ∀ entry ∈ entries, allowed entry

namespace Job

variable {α β : Type} {allowed : Enrichment → Prop}

/-- Every call that the job can come to makes such entries only, whatever the calls are answered. -/
inductive Enters (allowed : Enrichment → Prop) : Job α → Prop
  | done (result : α) : Enters allowed (.done result)
  | fail (cause : Failure) : Enters allowed (.fail cause)
  | ask {call : Call} {next : call.Answer → Job α} (hcall : call.Enters allowed)
      (hnext : ∀ answer, Enters allowed (next answer)) : Enters allowed (.ask call next)

private theorem Enters.bind {job : Job α} {next : α → Job β} (hjob : job.Enters allowed)
    (hnext : ∀ result, (next result).Enters allowed) : (job >>= next).Enters allowed := by
  change (job.bind next).Enters allowed
  induction hjob with
  | done result => exact hnext result
  | fail cause => exact .fail cause
  | ask hcall _ ih => exact .ask hcall ih

private theorem Enters.ofRule_bind {check : Except RuleError α} {next : α → Job β}
    (hnext : ∀ result, check = .ok result → (next result).Enters allowed) :
    (Job.ofRule check >>= next).Enters allowed := by
  cases check with
  | ok result => exact hnext result rfl
  | error cause => exact .fail _

private theorem enters_call {call : Call} (h : call.Enters allowed) :
    (Job.call call).Enters allowed :=
  .ask h fun answer => .done answer

/-- The store after a run is the one before it with such entries, also when the job fails. -/
theorem Enters.run {job : Job α} (hjob : job.Enters allowed) (outage : Outage) (world : World) :
    ∃ entries, (job.run outage world).2.store = world.store.enterAll entries ∧
      ∀ entry ∈ entries, allowed entry := by
  induction hjob generalizing world with
  | done result => exact ⟨[], rfl, by simp⟩
  | fail cause => exact ⟨[], rfl, by simp⟩
  | @ask call next hcall _ ih =>
    rw [Job.run]
    rcases world.answer_cases outage call with
      ⟨answer, between, first, hserves, hbetween, hanswer⟩ | ⟨cause, after, hafter, hanswer⟩
    · rw [hanswer]
      obtain ⟨later, hlater, hallowed⟩ := ih answer between
      refine ⟨first ++ later, ?_, List.forall_mem_append.2 ⟨hcall _ _ _ hserves, hallowed⟩⟩
      rw [Store.enterAll_append, ← hbetween]
      exact hlater
    · rw [hanswer]
      exact ⟨[], hafter, by simp⟩

end Job

/-- What the owner lets rules enter into a column. -/
inductive Vocabulary.Admits (vocabulary : Vocabulary) : Column → Value → Prop
  /-- A category reads as one of those that the owner offers. -/
  | category {value : Value} {option : SelectOption} : option ∈ vocabulary.categories →
    value.text? = some option.value → vocabulary.Admits category value
  /-- A merchant reads as one of those that the owner offers. -/
  | merchant {value : Value} {option : SelectOption} : option ∈ vocabulary.merchants →
    value.text? = some option.value → vocabulary.Admits merchant value
  /-- A name is a text in which some character is not blank. -/
  | name {text : String} {c : Char} : c ∈ text.toList → Text.isBlank c = false →
    vocabulary.Admits name (.text text)

/-- The owner lets rules make the entry. -/
def Vocabulary.AdmitsEntry (vocabulary : Vocabulary) (entry : Enrichment) : Prop :=
  vocabulary.Admits entry.column entry.value

private theorem SelectOption.offered_eq_true_iff {options : List SelectOption} {text : String} :
    offered options text = true ↔ ∃ option ∈ options, option.value = text := by
  simp only [offered, List.any_eq_true, beq_iff_eq]

/-- A type with a closed list accepts what reads as one of the list. -/
theorem ActionType.accepts_eq_true_iff {type : ActionType} {options : List SelectOption}
    (hoptions : type.options = some options) {value : Value} :
    type.accepts value = true ↔ ∃ option ∈ options, value.text? = some option.value := by
  simp only [accepts, hoptions, Option.any_eq_true, SelectOption.offered_eq_true_iff]
  constructor
  · rintro ⟨text, htext, option, hmem, rfl⟩
    exact ⟨option, hmem, htext⟩
  · rintro ⟨option, hmem, htext⟩
    exact ⟨option.value, htext, option, hmem, rfl⟩

/-- A text that an author gives is entered as a text that is not blank. -/
theorem ActionType.exists_not_blank_of_check {type : ActionType} {given value : Value}
    (heffect : type.effect = .setText) (h : type.check given = .ok value) :
    ∃ text, value = .text text ∧ ∃ c ∈ text.toList, Text.isBlank c = false := by
  unfold check at h
  rw [heffect] at h
  dsimp only at h
  split at h
  · cases h
  · rename_i text htext
    split at h
    · cases h
    · rename_i hblank
      refine ⟨text, (Except.ok.inj h).symm, ?_⟩
      simpa [Text.isBlankText] using hblank

namespace Transaction

variable {vocabulary : Vocabulary} {type : ActionType}

/-- A type writes a name that the author gives, or a category or merchant of the owner's. -/
theorem actions_cases (h : type ∈ actions vocabulary) :
    (type.column = name ∧ type.effect = .setText) ∨
    (type.column = category ∧ type.options = some vocabulary.categories ∧
      type.effect ≠ .setText) ∨
    (type.column = merchant ∧ type.options = some vocabulary.merchants ∧
      type.effect ≠ .setText) := by
  simp only [actions, List.mem_cons, List.not_mem_nil, or_false] at h
  rcases h with rfl | rfl | rfl | rfl | rfl
  · exact .inr (.inl ⟨rfl, rfl, by simp⟩)
  · exact .inr (.inr ⟨rfl, rfl, by simp⟩)
  · exact .inl ⟨rfl, rfl⟩
  · exact .inr (.inl ⟨rfl, rfl, by simp⟩)
  · exact .inr (.inr ⟨rfl, rfl, by simp⟩)

/-- What a type with a closed list accepts is admitted in its column. -/
theorem admits_of_accepts (htype : type ∈ actions vocabulary) (heffect : type.effect ≠ .setText)
    {value : Value} (h : type.accepts value = true) : vocabulary.Admits type.column value := by
  rcases actions_cases htype with ⟨-, hname⟩ | ⟨hcolumn, hoptions, -⟩ | ⟨hcolumn, hoptions, -⟩
  · exact absurd hname heffect
  · obtain ⟨option, hmem, htext⟩ := (ActionType.accepts_eq_true_iff hoptions).1 h
    exact hcolumn ▸ .category hmem htext
  · obtain ⟨option, hmem, htext⟩ := (ActionType.accepts_eq_true_iff hoptions).1 h
    exact hcolumn ▸ .merchant hmem htext

/-- What a rule gives to write is admitted in the column of the type. -/
theorem admits_of_check (htype : type ∈ actions vocabulary) (heffect : type.effect ≠ .enrich)
    {given value : Value} (h : type.check given = .ok value) :
    vocabulary.Admits type.column value := by
  cases hkind : type.effect with
  | assign =>
    exact admits_of_accepts htype (by simp [hkind]) (ActionType.accepts_of_check hkind h)
  | setText =>
    obtain ⟨text, rfl, c, hmem, hblank⟩ := ActionType.exists_not_blank_of_check hkind h
    rcases actions_cases htype with ⟨hcolumn, -⟩ | ⟨-, -, hother⟩ | ⟨-, -, hother⟩
    · exact hcolumn ▸ .name hmem hblank
    · exact absurd hkind hother
    · exact absurd hkind hother
  | enrich => exact absurd hkind heffect

end Transaction

namespace Registry

variable {registry : Registry} {vocabulary : Vocabulary}

/-- Writing one value for all makes entries that are admitted if the value is. -/
theorem enters_updateAll {column : Column} {value : Value}
    (h : vocabulary.Admits column value) (target : Collection) (source : String) :
    (Call.updateAll target column value source).Enters vocabulary.AdmitsEntry := by
  rintro store written entries ⟨-, -, rfl⟩ entry hentry
  obtain ⟨id, -, chosen, hchosen, rfl⟩ := mem_entriesFor_iff.1 hentry
  obtain rfl := Option.some.inj hchosen
  exact h

/-- Whatever is suggested, an update with what the type accepts makes admitted entries. -/
theorem enters_updateEach {type : ActionType} (htype : type ∈ Transaction.actions vocabulary)
    (heffect : type.effect = .enrich) (target : Collection) (suggestions : List Suggestion)
    (source : String) :
    (Call.updateEach target type.column (acceptedWrites type suggestions) source).Enters
      vocabulary.AdmitsEntry := by
  rintro store written entries ⟨-, -, rfl⟩ entry hentry
  obtain ⟨id, -, chosen, hchosen, rfl⟩ := mem_entriesFor_iff.1 hentry
  have hwrite := Store.mem_of_lastWrite?_eq_some hchosen
  obtain ⟨suggestion, hsuggestion, hsame⟩ := List.mem_map.1 hwrite
  obtain ⟨-, rfl⟩ := Prod.mk.inj hsame
  have haccepted := (List.mem_filter.1 hsuggestion).2
  exact Transaction.admits_of_accepts htype (by simp [heffect]) haccepted

private theorem enters_enrich {type : ActionType} (htype : type ∈ Transaction.actions vocabulary)
    (heffect : type.effect = .enrich) (directive : Value) (target : Collection) :
    (registry.enrich type directive target).Enters vocabulary.AdmitsEntry := by
  unfold enrich
  split
  · exact .fail _
  · refine (Job.enters_call ?_).bind fun records => ?_
    · rintro store answer entries ⟨-, -, rfl⟩
      simp
    · split
      · exact .done _
      · refine (Job.enters_call ?_).bind fun suggestions => ?_
        · rintro store answer entries rfl
          simp
        · dsimp only
          split
          · exact .done _
          · exact Job.enters_call (enters_updateEach htype heffect target suggestions _)

variable (hcatalog : registry.catalog = Transaction.catalog vocabulary)
include hcatalog

private theorem enters_execute (action : Action) (collection : Collection) (ignoreLocks : Bool) :
    (registry.execute action collection ignoreLocks).Enters vocabulary.AdmitsEntry := by
  refine .ofRule_bind fun type hok => .ofRule_bind fun value hvalue => ?_
  have htype : type ∈ Transaction.actions vocabulary := by
    have hdeclared := (Catalog.mem_actions_of_actionType hok).1
    rwa [hcatalog] at hdeclared
  have hgiven (heffect : type.effect ≠ .enrich) : vocabulary.Admits type.column value :=
    Transaction.admits_of_check htype heffect hvalue
  cases heffect : type.effect with
  | assign => exact Job.enters_call (enters_updateAll (hgiven (by simp [heffect])) _ _)
  | setText => exact Job.enters_call (enters_updateAll (hgiven (by simp [heffect])) _ _)
  | enrich => exact enters_enrich htype heffect value _

private theorem enters_executeAll (actions : List Action) (collection : Collection)
    (ignoreLocks : Bool) :
    (registry.executeAll collection ignoreLocks actions).Enters vocabulary.AdmitsEntry := by
  induction actions with
  | nil => exact .done _
  | cons action rest ih =>
    refine (enters_execute hcatalog action collection ignoreLocks).bind fun written => ?_
    exact ih.bind fun others => .done _

/-- Applying a rule makes admitted entries only. -/
theorem enters_applyWith (rule : Rule) (ignoreLocks : Bool) :
    (rule.applyWith registry ignoreLocks).Enters vocabulary.AdmitsEntry := by
  refine .ofRule_bind fun _ _ => .ofRule_bind fun matching _ => ?_
  refine (Job.enters_call ?_).bind fun pinned => (Job.enters_call ?_).bind fun matched => ?_
  · rintro store answer entries ⟨-, -, rfl⟩
    simp
  · rintro store answer entries ⟨-, -, rfl⟩
    simp
  · exact (enters_executeAll hcatalog rule.actions pinned ignoreLocks).bind fun outcomes => .done _

/-- So does a batch, however far it gets. -/
theorem exists_entries_applyRest (outage : Outage) (rules : List Rule) (batch : BatchReport)
    (world : World) :
    ∃ entries, (registry.applyRest outage batch rules world).2.store =
        world.store.enterAll entries ∧ ∀ entry ∈ entries, vocabulary.AdmitsEntry entry := by
  induction rules generalizing batch world with
  | nil => exact ⟨[], rfl, by simp⟩
  | cons rule rest ih =>
    rw [applyRest]
    split
    · obtain ⟨first, hfirst, hadmitted⟩ :=
        (enters_applyWith hcatalog rule false).run outage world
      rw [Rule.apply]
      generalize (rule.applyWith registry false).run outage world = ran at hfirst
      obtain ⟨result, between⟩ := ran
      -- the entries of the rule stay, whether the batch goes on or not
      have hgoes (next : BatchReport) : ∃ entries,
          (registry.applyRest outage next rest between).2.store = world.store.enterAll entries ∧
            ∀ entry ∈ entries, vocabulary.AdmitsEntry entry := by
        obtain ⟨later, hlater, hothers⟩ := ih next between
        refine ⟨first ++ later, ?_, List.forall_mem_append.2 ⟨hadmitted, hothers⟩⟩
        rw [hlater, hfirst, Store.enterAll_append]
      cases result with
      | ok report => exact hgoes _
      | error cause =>
        dsimp only
        split
        · exact hgoes _
        · exact ⟨first, hfirst, hadmitted⟩
    · exact ih _ world

end Registry

/-- What rules are applied to an owner's records: one of them, or a batch. -/
inductive Pass.Work where
  | rule (rule : Rule) (ignoreLocks : Bool)
  | batch (rules : List Rule)

/-- Rules applied once, to a collection and under a vocabulary, a provider and settings of their
own. -/
structure Pass where
  collection : Collection
  vocabulary : Vocabulary
  provider : Option Provider
  settings : Settings
  work : Pass.Work

namespace Pass

/-- The registry that the rules are applied to. -/
def registry (pass : Pass) : Registry :=
  { Registry.ofCollection .transaction pass.collection pass.vocabulary with
    provider := pass.provider
    settings := pass.settings }

/-- The world after a pass, whatever the pass has come to. -/
def run (outage : Outage) (world : World) (pass : Pass) : World :=
  match pass.work with
  | .rule rule ignoreLocks => ((rule.applyWith pass.registry ignoreLocks).run outage world).2
  | .batch rules => (pass.registry.applyAll outage rules world).2

/-- The world after passes, one after another. -/
def runAll (outage : Outage) (world : World) (passes : List Pass) : World :=
  passes.foldl (run outage) world

/-- A pass makes entries that its vocabulary admits, and no others. -/
theorem exists_entries_run (outage : Outage) (world : World) (pass : Pass) :
    ∃ entries, (pass.run outage world).store = world.store.enterAll entries ∧
      ∀ entry ∈ entries, pass.vocabulary.AdmitsEntry entry := by
  have hcatalog : pass.registry.catalog = Transaction.catalog pass.vocabulary := rfl
  unfold run
  split
  · exact (Registry.enters_applyWith hcatalog _ _).run outage world
  · exact Registry.exists_entries_applyRest hcatalog outage _ {} world

end Pass

/-- No vocabulary admits an entry in any other column. -/
theorem Vocabulary.Admits.column_mem {vocabulary : Vocabulary} {column : Column} {value : Value}
    (h : vocabulary.Admits column value) :
    column ∈ [Transaction.category, Transaction.merchant, Transaction.name] := by
  cases h with
  | category => simp
  | merchant => simp
  | name => simp

namespace Pass

/-- The entries of each pass are admitted by the vocabulary that it had. -/
def Admitted (passes : List Pass) (entered : List (List Enrichment)) : Prop :=
  List.Forall₂ (fun pass entries => ∀ entry ∈ entries, pass.vocabulary.AdmitsEntry entry)
    passes entered

private theorem Admitted.column_mem {passes : List Pass} {entered : List (List Enrichment)}
    (h : Admitted passes entered) :
    ∀ entry ∈ entered.flatten, entry.column ∈ [category, merchant, name] := by
  induction h with
  | nil => simp
  | cons hfirst _ ih =>
    rw [List.flatten_cons]
    exact List.forall_mem_append.2 ⟨fun entry hmem => (hfirst entry hmem).column_mem, ih⟩

/-- Passes one after another make the entries of each, in their order. -/
theorem exists_entered_runAll (outage : Outage) (world : World) (passes : List Pass) :
    ∃ entered, (runAll outage world passes).store = world.store.enterAll entered.flatten ∧
      Admitted passes entered := by
  induction passes generalizing world with
  | nil => exact ⟨[], rfl, .nil⟩
  | cons pass rest ih =>
    obtain ⟨first, hfirst, hadmitted⟩ := pass.exists_entries_run outage world
    obtain ⟨others, hothers, hrest⟩ := ih (pass.run outage world)
    refine ⟨first :: others, ?_, .cons hadmitted hrest⟩
    rw [List.flatten_cons, Store.enterAll_append, ← hfirst]
    exact hothers

/-- **Closed vocabulary.** However often rules are applied, one by one or in batches, with or
without regard to locks, and whether they come to their end or fail, the log grows by the entries
of each pass, and these are admitted by the vocabulary of that pass. They are in the columns of
categories, merchants and names, so no amount, no date and no mark of exclusion ever changes. -/
theorem runAll_enters_admitted (outage : Outage) (world : World) (passes : List Pass) :
    ∃ entered, (runAll outage world passes).store.log = world.store.log ++ entered.flatten ∧
      Admitted passes entered ∧
      (∀ entry ∈ entered.flatten, entry.column ∈ [category, merchant, name]) ∧
      ∀ id, ∀ column ∈ [amount, date, excluded],
        (runAll outage world passes).store.get? id column = world.store.get? id column := by
  obtain ⟨entered, hstore, hadmitted⟩ := exists_entered_runAll outage world passes
  have hcolumns := hadmitted.column_mem
  refine ⟨entered, ?_, hadmitted, hcolumns, fun id column hcolumn => ?_⟩
  · rw [hstore, Store.log_enterAll]
  · rw [hstore]
    refine Store.get?_enterAll_of_forall_ne fun entry hentry _ hsame => ?_
    have hother : ∀ column ∈ [amount, date, excluded], column ∉ [category, merchant, name] := by
      decide
    exact hother column hcolumn (hsame ▸ hcolumns entry hentry)

end Pass

end Bookkeeping
