import Bookkeeping.Proofs.Job.Steadiness
import Bookkeeping.Proofs.Rule.Reapplication

/-!
# Rules applied at once

A rule that sets values asks the store for a pin and a count, and then for one update for each of
its actions. What it covers is decided by the columns that it reads, and what its actions reach by
the locks. So rules of which none writes what another one reads or writes can be applied at once.
-/

namespace Bookkeeping

/-- The entries of an action that sets a value for each of the records that it reaches. -/
def Registry.entered (registry : Registry) (reached : Column → List Nat) (action : Action) :
    List Enrichment :=
  match registry.catalog.actionType action.typeKey with
  | .error _ => []
  | .ok type =>
    match type.check action.value with
    | .error _ => []
    | .ok value =>
      (reached type.column).map fun id => ⟨id, type.column, value, registry.settings.source⟩

section Steadiness

variable {registry : Registry} {store : Store} {collection : Collection} {ignoreLocks : Bool}
  {footprint : Footprint} {made : List Enrichment}

/-- Pinning a collection is steady while the columns that its restrictions read are left alone. -/
theorem steady_pin (hjoins : Store.checkJoins collection = .ok ())
    (hreads : ∀ p ∈ collection.restrictions, ∀ column ∈ p.atomColumns, footprint.Uses column) :
    (Job.call (.pin collection)).Steady store footprint (store.pinned collection) 1 [] [] := by
  have hjoined : (Call.pin collection).Joined := hjoins
  refine .call hjoined (fun all hsees => ⟨hjoins, ?_, rfl⟩) (by simp)
  have hselect : (store.enterAll all).select collection =
      (store.select collection).map (·.enterAll all) := by
    -- the job has entered nothing yet, and the others nothing in what it reads
    refine Store.select_enterAll_of_unread fun p hp column hcolumn entry hentry hread => ?_
    have hmem : entry ∈ entriesIn column all := by simpa [entriesIn] using ⟨hentry, hread⟩
    rw [hsees column (hreads p hp column hcolumn)] at hmem
    cases hmem
  rw [Store.pinned, Store.pinned, hselect, List.map_map]
  congr 3
  refine List.map_congr_left fun record _ => ?_
  rw [Function.comp_apply, Record.id_enterAll]

/-- Counting pinned records is steady. -/
theorem steady_count (store : Store) (collection : Collection) :
    (Job.call (.count (store.pinned collection))).Steady store footprint
      (store.select collection).length 1 made [] := by
  have hjoined : (Call.count (store.pinned collection)).Joined := rfl
  refine .call hjoined (fun all _ => ⟨rfl, ?_, rfl⟩) (by simp)
  rw [Store.select_pinned, List.length_map]

/-- A permitted action that asks no provider is one call. Whatever was entered since the collection
was pinned, it writes the same cells. -/
theorem Registry.Permits.steady_execute {action : Action} (h : registry.Permits action)
    (hsets : action.SetsIn registry.catalog)
    (hwrites : ∀ type, registry.catalog.actionType action.typeKey = .ok type →
      footprint.Writes type.column) :
    let entries := registry.entered (writable (store.select collection) ignoreLocks) action
    (registry.execute action (store.pinned collection) ignoreLocks).Steady store footprint
      entries.length 1 made entries := by
  obtain ⟨type, value, htype, hvalue, -⟩ := h
  let target := target type (store.pinned collection) ignoreLocks
  have hentered : registry.entered (writable (store.select collection) ignoreLocks) action =
      (writable (store.select collection) ignoreLocks type.column).map fun id =>
        ⟨id, type.column, value, registry.settings.source⟩ := by
    simp only [entered, htype, hvalue]
  have hcall : (Job.call (.updateAll target type.column value registry.settings.source)).Steady
      store footprint (registry.entered (writable (store.select collection) ignoreLocks)
        action).length 1 made
      (registry.entered (writable (store.select collection) ignoreLocks) action) := by
    have hjoined : (Call.updateAll target type.column value registry.settings.source).Joined :=
      checkJoins_target_pinned type store collection ignoreLocks
    refine .call hjoined (fun all _ => ⟨hjoined, rfl, ?_⟩) fun entry hentry => ?_
    · rw [hentered, Store.entries, map_id_select_target, entriesFor_some]
    · rw [hentered] at hentry
      obtain ⟨id, -, rfl⟩ := List.mem_map.1 hentry
      exact hwrites type htype
  simp only [execute, htype, hvalue, Job.ofRule_ok_bind]
  cases heffect : type.effect with
  | assign => exact hcall
  | setText => exact hcall
  | enrich => exact absurd heffect (hsets type htype)

private theorem Registry.steady_executeAll {actions : List Action}
    (hpermits : ∀ action ∈ actions, registry.Permits action)
    (hsets : ∀ action ∈ actions, action.SetsIn registry.catalog)
    (hwrites : ∀ action ∈ actions, ∀ type,
      registry.catalog.actionType action.typeKey = .ok type → footprint.Writes type.column) :
    let entered := registry.entered (writable (store.select collection) ignoreLocks)
    (registry.executeAll (store.pinned collection) ignoreLocks actions).Steady store footprint
      (actions.map fun action => ⟨action.typeKey, (entered action).length⟩) actions.length made
      (actions.flatMap entered) := by
  intro entered
  induction actions generalizing made with
  | nil => exact .done
  | cons action rest ih =>
    obtain ⟨haction, hrest⟩ := List.forall_mem_cons.1 hpermits
    obtain ⟨hset, hothers⟩ := List.forall_mem_cons.1 hsets
    obtain ⟨hwritten, hlater⟩ := List.forall_mem_cons.1 hwrites
    rw [executeAll, List.length_cons, Nat.add_comm, List.flatMap_cons]
    refine (haction.steady_execute hset hwritten).bind ?_
    exact (ih hrest hothers hlater).bind_pure _

/-- A valid rule that asks no provider makes a pin, a count and a call for each action, and while
the columns that decide what it matches are left alone, it comes to the same. -/
theorem Rule.steady_applyWith {rule : Rule} (h : rule.validate registry = .ok ())
    (hsets : ∀ action ∈ rule.actions, action.SetsIn registry.catalog)
    (hmatching : rule.matching registry = .ok collection)
    (hjoins : Store.checkJoins collection = .ok ())
    (hreads : ∀ p ∈ collection.restrictions, ∀ column ∈ p.atomColumns, footprint.Uses column)
    (hwrites : ∀ column, rule.WritesTo registry.catalog column → footprint.Writes column) :
    let entered := registry.entered (writable (store.select collection) ignoreLocks)
    (rule.applyWith registry ignoreLocks).Steady store footprint
      ⟨rule.displayName, (store.select collection).length,
        rule.actions.map fun action => ⟨action.typeKey, (entered action).length⟩⟩
      (rule.actions.length + 2) [] (rule.actions.flatMap entered) := by
  intro entered
  have hactions : (registry.executeAll (store.pinned collection) ignoreLocks rule.actions).Steady
      store footprint
      (rule.actions.map fun action => ⟨action.typeKey, (entered action).length⟩)
      rule.actions.length [] (rule.actions.flatMap entered) :=
    Registry.steady_executeAll (valid_of_validate h).permitted hsets
      fun action haction type htype => hwrites type.column ⟨action, haction, type, htype, rfl⟩
  have hcalls : rule.actions.length + 2 = 1 + (1 + rule.actions.length) := by omega
  simp only [applyWith, h, hmatching, Job.ofRule_ok_bind]
  rw [hcalls]
  exact (steady_pin hjoins hreads).bind
    ((steady_count store collection).bind (hactions.bind_pure _))

end Steadiness

/-- A rule to be applied to the transactions of an owner. -/
structure Application where
  rule : Rule
  owner : Nat
  vocabulary : Vocabulary := {}
  provider : Option Provider := none
  settings : Settings := {}
  ignoreLocks : Bool := false

namespace Application

/-- The registry that the rule is applied with, over the records of a store. -/
def registry (application : Application) (store : Store) : Registry :=
  Transaction.registry store application.owner application.vocabulary application.provider
    application.settings

/-- The application of the rule, call by call. -/
def job (application : Application) (store : Store) : Job Report :=
  application.rule.applyWith (application.registry store) application.ignoreLocks

/-- The calls that the application makes: a pin, a count and an update for each action. -/
def calls (application : Application) : Nat :=
  application.rule.actions.length + 2

/-- A rule reads the column of the scope, that of its first day if it has one, and those of its
conditions. It writes the columns of its actions. -/
def footprint (application : Application) : Footprint where
  Reads column :=
    column = Transaction.excluded ∨
      (application.rule.effectiveDate.isSome ∧ column = Transaction.date) ∨
      application.rule.Reads (Transaction.catalog application.vocabulary) column
  Writes column := application.rule.WritesTo (Transaction.catalog application.vocabulary) column

/-- The entries that an action makes in a store: one for each covered record that it may write. -/
noncomputable def entered (application : Application) (store : Store) :
    Action → List Enrichment :=
  (application.registry store).entered
    (writable (store.covered application.rule application.owner) application.ignoreLocks)

/-- The report of the rule on a store: the number of records covered, and for each action that of
the records that it may write among them. -/
noncomputable def report (application : Application) (store : Store) : Report :=
  ⟨application.rule.displayName, (store.covered application.rule application.owner).length,
    application.rule.actions.map fun action =>
      ⟨action.typeKey, (application.entered store action).length⟩⟩

/-- What the application comes to on a store. -/
noncomputable def course (application : Application) (store : Store) : Course where
  footprint := application.footprint
  job := application.job store
  calls := application.calls
  report := application.report store
  entries := application.rule.actions.flatMap (application.entered store)

/-- A valid rule whose actions all set values takes its course, whatever others that keep apart
write meanwhile. -/
theorem steady_course {application : Application} {store : Store}
    (hbase : store.baseTable = Transaction.baseTable)
    (hvalid : application.rule.validate (application.registry store) = .ok ())
    (hsets : ∀ action ∈ application.rule.actions, action.Sets) :
    (application.course store).Steady store := by
  obtain ⟨collection, hmatching⟩ := (Rule.valid_of_validate hvalid).exists_matching
  have hcovered := Rule.select_matching hmatching store
  rw [Course.Steady, course, report, entered, ← hcovered]
  exact Rule.steady_applyWith hvalid
    (fun action haction => Transaction.setsIn_catalog (hsets action haction)) hmatching
    (Rule.checkJoins_matching hbase hmatching)
    (fun p hp column hcolumn => .inl (Rule.reads_of_mem_restrictions hmatching hp hcolumn))
    fun column hwrites => hwrites

/-- Applies rules one after another, each as if it were alone. -/
def runEach (order : List Application) (world : World) :
    List (Except Failure Report) × World :=
  Job.runEach .none (order.map (·.job world.store)) world

end Application

/-- Rules about to be applied at once. -/
def System.launch (world : World) (applications : List Application) : System :=
  ⟨world, applications.map (·.job world.store)⟩

/-- **Rules at once.** Valid rules whose actions all set values are applied to one store of
transactions at once, and none of them writes a column that another one reads or writes. However
their calls take turns, in the end every rule has given the report, every record has the values and
locks, and the log has the entries, up to their order, that come from applying the rules one after
another in any order. -/
theorem System.launch_play_eq_runEach {world : World} {applications : List Application}
    (hbase : world.store.baseTable = Transaction.baseTable)
    (hvalid : ∀ application ∈ applications,
      application.rule.validate (application.registry world.store) = .ok ())
    (hsets : ∀ application ∈ applications, ∀ action ∈ application.rule.actions, action.Sets)
    (hapart : applications.Pairwise fun one other => one.footprint.Apart other.footprint)
    {turns : List Nat}
    (hturns : ∀ worker application, applications[worker]? = some application →
      application.calls ≤ turns.count worker)
    {order : List Application} (horder : applications.Perm order) :
    let together := (launch world applications).play .none (turns.map .work)
    let inTurn := Application.runEach order world
    together.jobs = applications.map (fun application => .done (application.report world.store)) ∧
      inTurn.1 = order.map (fun application => .ok (application.report world.store)) ∧
      together.store.Agrees inTurn.2.store ∧
      together.store.log.Perm inTurn.2.store.log := by
  let courses := applications.map (·.course world.store)
  have hsteady : ∀ course ∈ courses, course.Steady world.store := by
    intro course hcourse
    obtain ⟨application, hmem, rfl⟩ := List.mem_map.1 hcourse
    exact Application.steady_course hbase (hvalid application hmem) (hsets application hmem)
  have hkeepApart : courses.Pairwise fun one other => one.footprint.Apart other.footprint :=
    List.pairwise_map.2 hapart
  have henough : ∀ worker course, courses[worker]? = some course →
      course.calls ≤ turns.count worker := by
    intro worker course hcourse
    rw [List.getElem?_map, Option.map_eq_some_iff] at hcourse
    obtain ⟨application, happlication, rfl⟩ := hcourse
    exact hturns worker application happlication
  have hboth := play_eq_runEach hsteady hkeepApart henough (horder.map (·.course world.store))
  simp only [courses, List.map_map] at hboth
  exact hboth

namespace Sample

/-- Everything that went to the bistro is for dining. -/
def lunches : Application where
  rule :=
    { conditions := [.leaf "transaction_merchant" "=" (.text "m1")]
      actions := [⟨"set_transaction_category", .text "dining"⟩] }
  owner := 1
  vocabulary := vocabulary

/-- Everything since the first day that went to the landlord is rent. -/
def rents : Application where
  rule :=
    { effectiveDate := some firstDay
      conditions := [.leaf "transaction_merchant" "=" (.text "m2")]
      actions := [⟨"set_transaction_name", .text "Rent"⟩] }
  owner := 1
  vocabulary := vocabulary

private theorem eq_category_of_writes {column : Column} (h : lunches.footprint.Writes column) :
    column = Transaction.category := by
  obtain ⟨action, haction, type, htype, rfl⟩ := h
  obtain rfl := List.mem_singleton.1 haction
  obtain rfl := Except.ok.inj htype
  rfl

private theorem eq_name_of_writes {column : Column} (h : rents.footprint.Writes column) :
    column = Transaction.name := by
  obtain ⟨action, haction, type, htype, rfl⟩ := h
  obtain rfl := List.mem_singleton.1 haction
  obtain rfl := Except.ok.inj htype
  rfl

/-- The conditions of both read the merchant alone. -/
theorem mem_of_reads {application : Application} (h : application ∈ [lunches, rents])
    {column : Column} (hreads : application.footprint.Reads column) :
    column ∈ [Transaction.excluded, Transaction.date, Transaction.merchant] := by
  rcases hreads with rfl | ⟨-, rfl⟩ | ⟨parts, hparts, hread⟩
  · decide
  · decide
  · have hmerchant : parts.flatMap Predicate.atomColumns = [Transaction.merchant] := by
      simp only [List.mem_cons, List.not_mem_nil, or_false] at h
      rcases h with rfl | rfl
      · rw [← Except.ok.inj hparts]
        rfl
      · rw [← Except.ok.inj hparts]
        rfl
    rw [hmerchant, List.mem_singleton] at hread
    rw [hread]
    decide

/-- Neither writes what the other one uses. -/
theorem lunches_apart_rents : lunches.footprint.Apart rents.footprint := by
  refine fun column => ⟨fun hwrites hused => ?_, fun hwrites hused => ?_⟩
  · obtain rfl := eq_category_of_writes hwrites
    rcases hused with hreads | hother
    · exact absurd (mem_of_reads (by simp) hreads) (by decide)
    · exact absurd (eq_name_of_writes hother) (by decide)
  · obtain rfl := eq_name_of_writes hwrites
    rcases hused with hreads | hother
    · exact absurd (mem_of_reads (by simp) hreads) (by decide)
    · exact absurd (eq_category_of_writes hother) (by decide)

end Sample

/-- The two sample rules take turns on the sample ledger. Of the records that went to the bistro one
has its category locked, and one record went to the landlord: in turns or one after another, two
entries are made. -/
theorem System.launch_play_eq_runEach_lunches :
    let world : World := { store := Sample.ledger.lock 2 Transaction.category }
    let turns := [0, 1, 1, 0, 1, 0]
    let together := (launch world [Sample.lunches, Sample.rents]).play .none (turns.map .work)
    let inTurn := Application.runEach [Sample.rents, Sample.lunches] world
    ∃ lunches rents : Report, inTurn.1 = [.ok rents, .ok lunches] ∧
      together.jobs = [.done lunches, .done rents] ∧ lunches.matched = 2 ∧ rents.matched = 1 ∧
      together.store.Agrees inTurn.2.store ∧ together.store.log.Perm inTurn.2.store.log ∧
      together.store.log.length = 2 := by
  intro world turns together inTurn
  have hvalid : ∀ application ∈ [Sample.lunches, Sample.rents],
      application.rule.validate (application.registry world.store) = .ok () := by
    simp only [List.forall_mem_cons]
    exact ⟨rfl, rfl, by simp⟩
  have hsets : ∀ application ∈ [Sample.lunches, Sample.rents],
      ∀ action ∈ application.rule.actions, action.Sets := by
    simp only [List.forall_mem_cons, Sample.lunches, Sample.rents, Action.Sets]
    exact ⟨by decide, by decide, by simp⟩
  have hturns : ∀ worker application,
      [Sample.lunches, Sample.rents][worker]? = some application →
        application.calls ≤ turns.count worker := by
    intro worker application happlication
    rcases worker with _ | _ | worker
    · obtain rfl := Option.some.inj happlication
      decide
    · obtain rfl := Option.some.inj happlication
      decide
    · cases happlication
  obtain ⟨htogether, hinTurn, hagrees, hlog⟩ :=
    @System.launch_play_eq_runEach world [Sample.lunches, Sample.rents] rfl hvalid hsets
      (List.pairwise_pair.2 Sample.lunches_apart_rents) turns hturns
      [Sample.rents, Sample.lunches] (List.Perm.swap ..)
  have hreports : inTurn.1 =
      [.ok (Sample.rents.report world.store), .ok (Sample.lunches.report world.store)] := hinTurn
  have hmatched : inTurn.1.map (·.map Report.matched) = [.ok 1, .ok 2] := by
    decide +kernel
  rw [hreports] at hmatched
  obtain ⟨hrents, hlunches⟩ := List.cons.inj hmatched
  have hlength : together.store.log.length = 2 := by decide +kernel
  exact ⟨Sample.lunches.report world.store, Sample.rents.report world.store, hreports, htogether,
    Except.ok.inj (List.cons.inj hlunches).1, Except.ok.inj hrents, hagrees, hlog, hlength⟩

end Bookkeeping
