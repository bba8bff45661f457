import Bookkeeping.Proofs.Rule.Application

/-!
# Rules taking turns

Several rules are applied to one store at a time, and the store is edited by hand in between. One
call of a job, or one edit, is one turn; nothing else happens at once. The jobs never write a cell
that is locked at that moment, in whatever order the turns come.
-/

namespace Bookkeeping

/-- A change that is made to a store by hand. -/
inductive Edit where
  | insert (owner : Nat) (values : List (Column × Value))
  | lock (id : Nat) (column : Column)
  | unlock (id : Nat) (column : Column)

/-- The store after an edit. -/
def Store.edit (store : Store) : Edit → Store
  | .insert owner values => store.insert owner values
  | .lock id column => store.lock id column
  | .unlock id column => store.unlock id column

/-- The job after its next call, with the world after that call. A job that has ended stays. -/
def Job.step {α : Type} (outage : Outage) (world : World) : Job α → Job α × World
  | .done result => (.done result, world)
  | .fail cause => (.fail cause, world)
  | .ask call next =>
    match world.answer outage call with
    | (.ok answer, after) => (next answer, after)
    | (.error cause, after) => (.fail cause, after)

/-- Jobs on one world. -/
structure System where
  world : World
  jobs : List (Job Report)

/-- Who acts next. -/
inductive Turn where
  | edit (edit : Edit)
  | work (worker : Nat)

namespace System

/-- Rules about to be applied, each with its registry, none of them ignoring locks. -/
def start (world : World) (calls : List (Rule × Registry)) : System :=
  ⟨world, calls.map fun call => call.1.applyWith call.2 false⟩

/-- The system after a turn. -/
def step (outage : Outage) (system : System) : Turn → System
  | .edit edit =>
    { system with world := { system.world with store := system.world.store.edit edit } }
  | .work worker =>
    match system.jobs[worker]? with
    | some job =>
      let (next, after) := job.step outage system.world
      ⟨after, system.jobs.set worker next⟩
    | none => system

/-- The system after turns, in order. -/
def play (outage : Outage) (system : System) (turns : List Turn) : System :=
  turns.foldl (step outage) system

/-- The store of the system. -/
def store (system : System) : Store :=
  system.world.store

end System

/-- A call writes only through a collection that leaves locked records out. -/
def Call.Guarded : Call → Prop
  | .updateAll collection column .. => .unlocked column ∈ collection.filters
  | .updateEach collection column .. => .unlocked column ∈ collection.filters
  | _ => True

namespace Job

variable {α β : Type}

/-- Every call that the job can come to is guarded, whatever it is answered. -/
inductive Guarded : Job α → Prop
  | done (result : α) : Guarded (.done result)
  | fail (cause : Failure) : Guarded (.fail cause)
  | ask {call : Call} {next : call.Answer → Job α} (hcall : call.Guarded)
      (hnext : ∀ answer, Guarded (next answer)) : Guarded (.ask call next)

private theorem Guarded.bind {job : Job α} {next : α → Job β} (hjob : job.Guarded)
    (hnext : ∀ result, (next result).Guarded) : (job >>= next).Guarded := by
  change (job.bind next).Guarded
  induction hjob with
  | done result => exact hnext result
  | fail cause => exact .fail cause
  | ask hcall _ ih => exact .ask hcall ih

private theorem guarded_call {call : Call} (h : call.Guarded) : (Job.call call).Guarded :=
  .ask h fun answer => .done answer

private theorem guarded_ofRule (check : Except RuleError α) : (ofRule check).Guarded := by
  cases check with
  | ok result => exact .done result
  | error cause => exact .fail _

/-- Taking a step does not change what a job comes to. -/
theorem run_step (outage : Outage) (world : World) (job : Job α) :
    (job.step outage world).1.run outage (job.step outage world).2 = job.run outage world := by
  cases job with
  | done result => rfl
  | fail cause => rfl
  | ask call next =>
    rw [step, run]
    rcases world.answer_cases outage call with ⟨_, _, -, -, -, h⟩ | ⟨_, _, -, h⟩
    · simp only [h]
    · simp only [h, run]

end Job

section Guards

variable (registry : Registry) (collection : Collection)

/-- The target of an action that respects locks leaves locked records out. -/
theorem Registry.unlocked_mem_target (type : ActionType) :
    .unlocked type.column ∈ (Registry.target type collection false).filters := by
  simp [Registry.target, Collection.enrichable, Collection.filter]

private theorem Registry.guarded_enrich (type : ActionType) (value : Value) :
    (registry.enrich type value (Registry.target type collection false)).Guarded := by
  unfold Registry.enrich
  split
  · exact .fail _
  · refine (Job.guarded_call (by exact trivial)).bind fun records => ?_
    split
    · exact .done _
    · refine (Job.guarded_call (by exact trivial)).bind fun suggestions => ?_
      dsimp only
      split
      · exact .done _
      · exact Job.guarded_call (Registry.unlocked_mem_target collection type)

private theorem Registry.guarded_execute (action : Action) :
    (registry.execute action collection false).Guarded := by
  refine (Job.guarded_ofRule _).bind fun type => ?_
  refine (Job.guarded_ofRule _).bind fun value => ?_
  cases heffect : type.effect with
  | assign =>
    dsimp only
    exact Job.guarded_call (Registry.unlocked_mem_target collection type)
  | setText =>
    dsimp only
    exact Job.guarded_call (Registry.unlocked_mem_target collection type)
  | enrich =>
    dsimp only
    exact registry.guarded_enrich collection type value

private theorem Registry.guarded_executeAll (actions : List Action) :
    (registry.executeAll collection false actions).Guarded := by
  induction actions with
  | nil => exact .done _
  | cons action rest ih =>
    refine (registry.guarded_execute collection action).bind fun written => ?_
    exact ih.bind fun others => .done _

/-- Applying a rule that respects locks is guarded. -/
theorem Rule.guarded_applyWith (rule : Rule) : (rule.applyWith registry false).Guarded := by
  refine (Job.guarded_ofRule _).bind fun _ => ?_
  refine (Job.guarded_ofRule _).bind fun matching => ?_
  refine (Job.guarded_call (by exact trivial)).bind fun pinned => ?_
  refine (Job.guarded_call (by exact trivial)).bind fun matched => ?_
  exact (registry.guarded_executeAll pinned rule.actions).bind fun outcomes => .done _

end Guards

namespace Store

variable {store : Store}

/-- There is a record of that number, and its column is not locked. -/
def Unlocked (store : Store) (id : Nat) (column : Column) : Prop :=
  ∃ record, store.find? id = some record ∧ record.isLocked column = false

private theorem isLocked_eq_false_of_unlocked {id : Nat} {column : Column}
    (h : store.Unlocked id column) : store.isLocked id column = false := by
  obtain ⟨record, hfound, hunlocked⟩ := h
  rw [isLocked, hfound, Option.any_some, hunlocked]

/-- A guarded call that is answered writes unlocked cells only. -/
theorem unlocked_of_serves {call : Call} {answer : call.Answer} {entries : List Enrichment}
    (hcall : call.Guarded) (hserves : store.Serves call answer entries) :
    ∀ entry ∈ entries, store.Unlocked entry.record entry.column := by
  have hentries {collection : Collection} {column : Column} {offer : Nat → Option Value}
      {source : String} (hfilter : .unlocked column ∈ collection.filters) :
      ∀ entry ∈ store.entries collection column offer source,
        store.Unlocked entry.record entry.column := by
    intro entry hentry
    obtain ⟨rfl, record, hmem, hid, hselects⟩ := exists_record_of_mem_entries hentry
    simp only [Collection.selects, Bool.and_eq_true, List.all_eq_true] at hselects
    have hpasses := hselects.2 _ hfilter
    refine ⟨record, find?_eq_some_iff.2 ⟨hmem, hid⟩, ?_⟩
    simpa [Filter.passes] using hpasses
  cases call with
  | pin => rw [hserves.2.2]; simp
  | count => rw [hserves.2.2]; simp
  | records => rw [hserves.2.2]; simp
  | updateAll => rw [hserves.2.2]; exact hentries hcall
  | updateEach => rw [hserves.2.2]; exact hentries hcall
  | suggest => rw [show entries = [] from hserves]; simp

/-- An edit logs nothing. -/
theorem log_edit (edit : Edit) : (store.edit edit).log = store.log := by
  cases edit <;> rfl

/-- A change of the records that keeps numbers and fields changes no cell. -/
theorem get?_mapRecords {change : Record → Record}
    (keeps : ∀ record, (change record).id = record.id)
    (hfields : ∀ record, (change record).fields = record.fields) (id : Nat) (column : Column) :
    (store.mapRecords change keeps).get? id column = store.get? id column := by
  rw [get?, find?_of_records_eq_map keeps rfl, Option.bind_map]
  simp only [Function.comp_def, hfields]
  rfl

/-- An edit by hand does not change what a locked cell holds. -/
theorem get?_edit_of_locked (edit : Edit) {id : Nat} {column : Column}
    (h : store.isLocked id column = true) :
    (store.edit edit).get? id column = store.get? id column := by
  cases edit with
  | insert owner values =>
    -- a locked cell belongs to a record, which the new one stands behind
    obtain ⟨record, hfound, -⟩ := (Option.any_eq_true _ _).1 h
    have hstill : (store.edit (.insert owner values)).find? id = some record := by
      obtain ⟨hmem, hid⟩ := find?_eq_some_iff.1 hfound
      exact find?_eq_some_iff.2 ⟨List.mem_append_left _ hmem, hid⟩
    rw [get?, get?, hfound, hstill]
  | lock =>
    refine get?_mapRecords (fun record => ?_) (fun record => ?_) id column
    · split <;> rfl
    · split <;> rfl
  | unlock =>
    refine get?_mapRecords (fun record => ?_) (fun record => ?_) id column
    · split <;> rfl
    · split <;> rfl

/-- Entries in unlocked cells leave the locked ones as they are. -/
theorem get?_enterAll_of_locked {entries : List Enrichment}
    (hentries : ∀ entry ∈ entries, store.Unlocked entry.record entry.column) {id : Nat}
    {column : Column} (h : store.isLocked id column = true) :
    (store.enterAll entries).get? id column = store.get? id column := by
  refine get?_enterAll_of_forall_ne ?_
  -- an entry in this very cell would find it unlocked
  rintro entry hentry rfl rfl
  rw [isLocked_eq_false_of_unlocked (hentries entry hentry)] at h
  cases h

end Store

/-- A step of a guarded job leaves it guarded and writes unlocked cells only. -/
theorem Job.Guarded.step {α : Type} {job : Job α} (h : job.Guarded) (outage : Outage)
    (world : World) :
    (job.step outage world).1.Guarded ∧
      ∃ entries, (job.step outage world).2.store = world.store.enterAll entries ∧
        ∀ entry ∈ entries, world.store.Unlocked entry.record entry.column := by
  cases h with
  | done result => exact ⟨.done result, [], rfl, by simp⟩
  | fail cause => exact ⟨.fail cause, [], rfl, by simp⟩
  | @ask call next hcall hnext =>
    rcases world.answer_cases outage call with
      ⟨answer, after, entries, hserves, hstore, hanswer⟩ | ⟨cause, after, hstore, hanswer⟩
    · simp only [Job.step, hanswer]
      exact ⟨hnext answer, entries, hstore, Store.unlocked_of_serves hcall hserves⟩
    · simp only [Job.step, hanswer]
      exact ⟨.fail cause, [], hstore, by simp⟩

namespace System

variable {outage : Outage} {system : System}

/-- All jobs of the system are guarded. -/
def Guarded (system : System) : Prop :=
  ∀ job ∈ system.jobs, job.Guarded

private theorem guarded_start (world : World) (calls : List (Rule × Registry)) :
    (start world calls).Guarded := by
  intro job hjob
  obtain ⟨call, -, rfl⟩ := List.mem_map.1 hjob
  exact call.1.guarded_applyWith call.2

/-- A turn logs unlocked cells only, keeps what is locked and leaves the jobs guarded. -/
theorem Guarded.step (h : system.Guarded) (outage : Outage) (turn : Turn) :
    (system.step outage turn).Guarded ∧
      (∃ entries, (system.step outage turn).store.log = system.store.log ++ entries ∧
        ∀ entry ∈ entries, system.store.Unlocked entry.record entry.column) ∧
      ∀ id column, system.store.isLocked id column = true →
        (system.step outage turn).store.get? id column = system.store.get? id column := by
  cases turn with
  | edit edit =>
    refine ⟨h, ⟨[], ?_, by simp⟩, fun id column => Store.get?_edit_of_locked edit⟩
    rw [List.append_nil]
    exact Store.log_edit edit
  | work worker =>
    cases hjob : system.jobs[worker]? with
    | none =>
      have hstay : system.step outage (.work worker) = system := by
        simp only [System.step, hjob]
      rw [hstay]
      exact ⟨h, ⟨[], (List.append_nil _).symm, by simp⟩, fun _ _ _ => rfl⟩
    | some job =>
      obtain ⟨hnext, entries, hstore, hunlocked⟩ :=
        (h job (List.mem_of_getElem? hjob)).step outage system.world
      simp only [System.step, hjob, System.store]
      refine ⟨?_, ⟨entries, ?_, hunlocked⟩, ?_⟩
      · intro other hother
        rcases List.mem_or_eq_of_mem_set hother with hother | rfl
        · exact h other hother
        · exact hnext
      · rw [hstore, Store.log_enterAll]
      · intro id column hlocked
        rw [hstore, Store.get?_enterAll_of_locked hunlocked hlocked]

/-- Two lists of turns are played one after the other. -/
theorem play_append (earlier later : List Turn) :
    system.play outage (earlier ++ later) = (system.play outage earlier).play outage later :=
  List.foldl_append

/-- All jobs stay guarded. -/
theorem Guarded.play (h : system.Guarded) (outage : Outage) (turns : List Turn) :
    (system.play outage turns).Guarded := by
  induction turns generalizing system with
  | nil => exact h
  | cons turn rest ih => exact ih (h.step outage turn).1

/-- A cell that stays locked holds what it held. -/
theorem Guarded.get?_play (h : system.Guarded) {turns : List Turn} {id : Nat} {column : Column}
    (hlocked : ∀ part, part <+: turns →
      (system.play outage part).store.isLocked id column = true) :
    (system.play outage turns).store.get? id column = system.store.get? id column := by
  induction turns generalizing system with
  | nil => rfl
  | cons turn rest ih =>
    have hfirst := (h.step outage turn).2.2 id column (hlocked [] (List.nil_prefix))
    have hrest := ih (h.step outage turn).1 fun part hpart =>
      hlocked (turn :: part) ((List.prefix_cons_inj turn).2 hpart)
    exact hrest.trans hfirst

/-- However rules that respect locks take turns with each other and with edits by hand, what a
turn logs is in cells that are unlocked at that moment, and a cell holds the same value for as
long as it stays locked. -/
theorem play_spares_locked (outage : Outage) (world : World) (calls : List (Rule × Registry))
    (turns : List Turn) :
    (∀ turn, ∃ entries,
      ((start world calls).play outage (turns ++ [turn])).store.log =
        ((start world calls).play outage turns).store.log ++ entries ∧
      ∀ entry ∈ entries,
        ((start world calls).play outage turns).store.Unlocked entry.record entry.column) ∧
    ∀ stretch id column,
      (∀ part, part <+: stretch →
        ((start world calls).play outage (turns ++ part)).store.isLocked id column = true) →
      ((start world calls).play outage (turns ++ stretch)).store.get? id column =
        ((start world calls).play outage turns).store.get? id column := by
  have hguarded := (guarded_start world calls).play outage turns
  constructor
  · intro turn
    rw [play_append]
    exact (hguarded.step outage turn).2.1
  · intro stretch id column hlocked
    simp only [play_append] at hlocked ⊢
    exact hguarded.get?_play hlocked

/-- The category of the third record is locked between two actions of a rule that covers it, while
the rule is applied once more: the category stays unset. -/
theorem play_spares_locked_meals :
    let applied := start { store := Sample.ledger }
      [(Sample.meals, Sample.registry), (Sample.meals, Sample.registry)]
    let earlier := [.work 0, .work 0, .work 1, .work 0, .edit (.lock 3 Transaction.category)]
    (applied.play .none earlier).store.log.length = 2 ∧
      (applied.play .none (earlier ++ [.work 0, .work 1])).store.log.length = 3 ∧
      (applied.play .none (earlier ++ [.work 0, .work 1])).store.get? 3 Transaction.category =
        none := by
  intro applied earlier
  refine ⟨by decide +kernel, by decide +kernel, ?_⟩
  have hkept := (play_spares_locked .none { store := Sample.ledger }
    [(Sample.meals, Sample.registry), (Sample.meals, Sample.registry)] earlier).2
    [.work 0, .work 1] 3 Transaction.category (by
      intro part hpart
      rw [← List.mem_inits] at hpart
      rcases List.mem_cons.1 hpart with rfl | hpart
      · rfl
      rcases List.mem_cons.1 hpart with rfl | hpart
      · rfl
      rcases List.mem_cons.1 hpart with rfl | hpart
      · rfl
      · cases hpart)
  exact hkept.trans rfl

end System

end Bookkeeping
