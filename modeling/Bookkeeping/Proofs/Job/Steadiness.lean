import Bookkeeping.Proofs.Job.History

/-!
# Jobs that keep apart

Jobs take turns on one store. Where none of them writes a column that another one uses, each is
answered as if it were alone, for what the others enter is out of its sight. So it comes to the
same result with the same entries, in whatever order the turns come.
-/

namespace Bookkeeping

/-- The entries in a column, in order. -/
def entriesIn (column : Column) (entries : List Enrichment) : List Enrichment :=
  entries.filter (·.column = column)

section EntriesIn

variable {first second : List Enrichment} {column : Column}

private theorem entriesIn_append (column : Column) (earlier later : List Enrichment) :
    entriesIn column (earlier ++ later) = entriesIn column earlier ++ entriesIn column later :=
  List.filter_append ..

private theorem entriesIn_eq_nil (h : ∀ entry ∈ first, entry.column ≠ column) :
    entriesIn column first = [] :=
  List.filter_eq_nil_iff.2 fun entry hentry => by simpa using h entry hentry

/-- What was entered last in a cell can be told from the entries in its column. -/
theorem lastEntered?_entriesIn (entries : List Enrichment) (id : Nat) (column : Column) :
    lastEntered? (entriesIn column entries) id column = lastEntered? entries id column := by
  rw [lastEntered?, entriesIn, ← List.filter_reverse, List.find?_filter, lastEntered?]
  congr 2
  funext entry
  by_cases h : entry.column = column <;> simp [h]

/-- Entries that are the same in every column are the same up to their order. -/
theorem perm_of_entriesIn_eq (h : ∀ column, entriesIn column first = entriesIn column second) :
    first.Perm second := by
  classical
  refine List.perm_iff_count.2 fun entry => ?_
  have hcount (entries : List Enrichment) :
      (entriesIn entry.column entries).count entry = entries.count entry :=
    List.count_filter (by simp)
  rw [← hcount, h, hcount]

end EntriesIn

/-- The records have the same owner, locks and values. -/
structure Record.Agrees (first second : Record) : Prop where
  id : first.id = second.id
  owner : first.owner = second.owner
  locks : first.locks = second.locks
  get? : ∀ column, first.fields.get? column = second.fields.get? column

/-- The stores have the same records, of the same owners, locks and values. -/
structure Store.Agrees (first second : Store) : Prop where
  baseTable : first.baseTable = second.baseTable
  defaults : first.defaults = second.defaults
  records : List.Forall₂ Record.Agrees first.records second.records

/-- Entries that are the same in every column make the same of a store. -/
theorem Store.agrees_enterAll (store : Store) {first second : List Enrichment}
    (h : ∀ column, entriesIn column first = entriesIn column second) :
    (store.enterAll first).Agrees (store.enterAll second) := by
  refine ⟨?_, ?_, ?_⟩
  · rw [baseTable_enterAll, baseTable_enterAll]
  · rw [defaults_enterAll, defaults_enterAll]
  · rw [records_enterAll, records_enterAll, List.forall₂_map_left_iff, List.forall₂_map_right_iff]
    refine List.forall₂_same.2 fun record _ => ⟨?_, ?_, ?_, fun column => ?_⟩
    · rw [Record.id_enterAll, Record.id_enterAll]
    · rw [Record.owner_enterAll, Record.owner_enterAll]
    · rw [Record.locks_enterAll, Record.locks_enterAll]
    · rw [Record.get?_enterAll, Record.get?_enterAll, ← lastEntered?_entriesIn, h,
        lastEntered?_entriesIn]

/-- The columns that a job reads and those that it writes. -/
structure Footprint where
  Reads : Column → Prop
  Writes : Column → Prop

namespace Footprint

variable {footprint : Footprint} {made all entries : List Enrichment}

/-- The job reads or writes the column. -/
def Uses (footprint : Footprint) (column : Column) : Prop :=
  footprint.Reads column ∨ footprint.Writes column

/-- Neither job writes a column that the other one uses. -/
def Apart (first second : Footprint) : Prop :=
  ∀ column, (first.Writes column → ¬second.Uses column) ∧
    (second.Writes column → ¬first.Uses column)

private theorem Apart.symm {first second : Footprint} (h : first.Apart second) :
    second.Apart first :=
  fun column => (h column).symm

/-- In the columns that the job uses there are its own entries only. -/
def Sees (footprint : Footprint) (made all : List Enrichment) : Prop :=
  ∀ column, footprint.Uses column → entriesIn column all = entriesIn column made

private theorem Sees.append_own (h : footprint.Sees made all) (entries : List Enrichment) :
    footprint.Sees (made ++ entries) (all ++ entries) := by
  intro column hused
  rw [entriesIn_append, entriesIn_append, h column hused]

/-- A job does not see what is entered in columns that it does not use. -/
theorem Sees.append_unused (h : footprint.Sees made all)
    (hunused : ∀ entry ∈ entries, ¬footprint.Uses entry.column) :
    footprint.Sees made (all ++ entries) := by
  intro column hused
  have hnone : entriesIn column entries = [] :=
    entriesIn_eq_nil fun entry hentry hcolumn => hunused entry hentry (hcolumn ▸ hused)
  rw [entriesIn_append, hnone, List.append_nil, h column hused]

end Footprint

/-- A call on a collection that misses no join has one answer. -/
theorem Store.Serves.unique {store : Store} {call : Call} {answer other : call.Answer}
    {entries others : List Enrichment} (hjoined : call.Joined)
    (h : store.Serves call answer entries) (hother : store.Serves call other others) :
    answer = other ∧ entries = others := by
  cases call with
  | pin => exact ⟨h.2.1.trans hother.2.1.symm, h.2.2.trans hother.2.2.symm⟩
  | count => exact ⟨h.2.1.trans hother.2.1.symm, h.2.2.trans hother.2.2.symm⟩
  | records => exact ⟨h.2.1.trans hother.2.1.symm, h.2.2.trans hother.2.2.symm⟩
  | updateAll =>
    obtain ⟨-, rfl, rfl⟩ := h
    obtain ⟨-, rfl, rfl⟩ := hother
    exact ⟨rfl, rfl⟩
  | updateEach =>
    obtain ⟨-, rfl, rfl⟩ := h
    obtain ⟨-, rfl, rfl⟩ := hother
    exact ⟨rfl, rfl⟩
  | suggest => exact absurd hjoined id

/-- While the store does not fail, it gives the answer that it serves. -/
theorem World.answer_of_serves {world : World} {call : Call} {answer : call.Answer}
    {entries : List Enrichment} (hjoined : call.Joined)
    (h : world.store.Serves call answer entries) :
    ∃ after, world.answer .none call = (.ok answer, after) ∧
      after.store = world.store.enterAll entries := by
  obtain ⟨other, after, hanswer⟩ := exists_answer hjoined world
  obtain ⟨others, hserves, hstore⟩ := serves_of_answer .none hanswer
  obtain ⟨rfl, rfl⟩ := h.unique hjoined hserves
  exact ⟨after, hanswer, hstore⟩

namespace Job

variable {α β : Type} {store : Store} {footprint : Footprint}

/-- Runs jobs one after another, also past one that fails. -/
def runEach (outage : Outage) : List (Job α) → World → List (Except Failure α) × World
  | [], world => ([], world)
  | job :: rest, world =>
    let (result, between) := job.run outage world
    let (results, after) := runEach outage rest between
    (result :: results, after)

/-- The job has made the entries `made` and comes to its result with so many more calls, by which
it makes the entries `later`, whatever is entered meanwhile in columns that it does not use. -/
inductive Steady (store : Store) (footprint : Footprint) {α : Type} (result : α) :
    Job α → Nat → List Enrichment → List Enrichment → Prop
  | done {made : List Enrichment} : Steady store footprint result (.done result) 0 made []
  | ask {call : Call} {next : call.Answer → Job α} {answer : call.Answer} {calls : Nat}
      {made entries later : List Enrichment} (hjoined : call.Joined)
      (hserves : ∀ all, footprint.Sees made all → (store.enterAll all).Serves call answer entries)
      (hwrites : ∀ entry ∈ entries, footprint.Writes entry.column)
      (hnext : Steady store footprint result (next answer) calls (made ++ entries) later) :
      Steady store footprint result (.ask call next) (calls + 1) made (entries ++ later)

namespace Steady

variable {result : α} {job : Job α} {calls : Nat} {made later : List Enrichment}

/-- A job that goes on steadily where a steady one ends is steady. -/
theorem bind {next : α → Job β} {last : β} {more : Nat} {final : List Enrichment}
    (hjob : job.Steady store footprint result calls made later)
    (hnext : (next result).Steady store footprint last more (made ++ later) final) :
    (job >>= next).Steady store footprint last (calls + more) made (later ++ final) := by
  change (job.bind next).Steady store footprint last (calls + more) made (later ++ final)
  induction hjob with
  | done =>
    rw [List.append_nil] at hnext
    rw [Nat.zero_add]
    exact hnext
  | @ask call resume answer calls made entries later hjoined hserves hwrites hrest ih =>
    rw [← List.append_assoc] at hnext
    rw [Nat.add_right_comm, List.append_assoc]
    exact .ask hjoined hserves hwrites (ih hnext)

/-- What is made of the result of a steady job is steady. -/
theorem bind_pure (hjob : job.Steady store footprint result calls made later) (change : α → β) :
    (job >>= fun result => pure (change result)).Steady store footprint (change result) calls made
      later := by
  have hchanged : (job >>= fun result => pure (change result)).Steady store footprint
      (change result) (calls + 0) made (later ++ []) := hjob.bind .done
  rwa [List.append_nil] at hchanged

/-- A single call is steady if its answer is. -/
theorem call {call : Call} {answer : call.Answer} {entries : List Enrichment}
    (hjoined : call.Joined)
    (hserves : ∀ all, footprint.Sees made all → (store.enterAll all).Serves call answer entries)
    (hwrites : ∀ entry ∈ entries, footprint.Writes entry.column) :
    (Job.call call).Steady store footprint answer 1 made entries := by
  have hask : (Job.call call).Steady store footprint answer 1 made (entries ++ []) :=
    .ask hjoined hserves hwrites .done
  rwa [List.append_nil] at hask

/-- All entries are in columns that the job writes. -/
theorem writes (h : job.Steady store footprint result calls made later) :
    ∀ entry ∈ later, footprint.Writes entry.column := by
  induction h with
  | done => simp
  | ask _ _ hwrites _ ih => exact List.forall_mem_append.2 ⟨hwrites, ih⟩

/-- A step takes one of the calls that are left, if any, and makes the next entries. -/
theorem step (h : job.Steady store footprint result calls made later) {world : World}
    {all : List Enrichment} (hstore : world.store = store.enterAll all)
    (hsees : footprint.Sees made all) :
    ∃ entries rest, later = entries ++ rest ∧
      (job.step .none world).2.store = store.enterAll (all ++ entries) ∧
      (∀ entry ∈ entries, footprint.Writes entry.column) ∧
      (job.step .none world).1.Steady store footprint result (calls - 1) (made ++ entries)
        rest := by
  cases h with
  | done =>
    refine ⟨[], [], rfl, ?_, by simp, .done⟩
    rw [List.append_nil]
    exact hstore
  | @ask call next answer calls made entries later hjoined hserves hwrites hnext =>
    obtain ⟨after, hanswer, hafter⟩ :=
      World.answer_of_serves hjoined (hstore ▸ hserves all hsees)
    refine ⟨entries, later, rfl, ?_, hwrites, ?_⟩
    · simp only [Job.step, hanswer]
      rw [hafter, hstore, Store.enterAll_append]
    · simp only [Job.step, hanswer]
      exact hnext

/-- A job without calls left has come to its result, and makes no entry any more. -/
theorem eq_done (h : job.Steady store footprint result 0 made later) :
    job = .done result ∧ later = [] := by
  cases h with
  | done => exact ⟨rfl, rfl⟩

/-- Without others in between, too, the job comes to its result and makes its entries: it is run
step by step. -/
theorem run (h : job.Steady store footprint result calls made later) {world : World}
    {all : List Enrichment} (hstore : world.store = store.enterAll all)
    (hsees : footprint.Sees made all) :
    ∃ after, job.run .none world = (.ok result, after) ∧
      after.store = store.enterAll (all ++ later) := by
  induction calls generalizing job world all made later with
  | zero =>
    obtain ⟨rfl, rfl⟩ := h.eq_done
    refine ⟨world, rfl, ?_⟩
    rw [List.append_nil]
    exact hstore
  | succ calls ih =>
    obtain ⟨entries, rest, rfl, hbetween, -, hnext⟩ := h.step hstore hsees
    obtain ⟨after, hrun, hafter⟩ := ih hnext hbetween (hsees.append_own entries)
    refine ⟨after, ?_, ?_⟩
    · rw [← Job.run_step]
      exact hrun
    · rw [hafter, List.append_assoc]

end Steady

end Job

/-- What a job comes to on a store. -/
structure Course where
  footprint : Footprint
  job : Job Report
  calls : Nat
  report : Report
  entries : List Enrichment

namespace Course

/-- The job takes its course on the store, however others that keep apart take turns with it. -/
def Steady (course : Course) (store : Store) : Prop :=
  course.job.Steady store course.footprint course.report course.calls [] course.entries

/-- After that many turns of its own the job is here, and has made its part of all entries. -/
def Reached (course : Course) (store : Store) (turns : Nat) (all : List Enrichment)
    (job : Job Report) : Prop :=
  ∃ made later, course.footprint.Sees made all ∧ made ++ later = course.entries ∧
    job.Steady store course.footprint course.report (course.calls - turns) made later

section Reached

variable {course : Course} {store : Store} {turns : Nat} {all : List Enrichment}
  {job : Job Report}

/-- With its next turn the job goes on along its course. -/
theorem Reached.step (h : course.Reached store turns all job) {world : World}
    (hstore : world.store = store.enterAll all) :
    ∃ entries, (job.step .none world).2.store = store.enterAll (all ++ entries) ∧
      (∀ entry ∈ entries, course.footprint.Writes entry.column) ∧
      course.Reached store (turns + 1) (all ++ entries) (job.step .none world).1 := by
  obtain ⟨made, later, hsees, hmade, hsteady⟩ := h
  obtain ⟨entries, rest, rfl, hafter, hwrites, hnext⟩ := hsteady.step hstore hsees
  refine ⟨entries, hafter, hwrites, made ++ entries, rest, hsees.append_own entries, ?_, hnext⟩
  rw [List.append_assoc, hmade]

/-- The turns of others that keep apart do not change how far the job is. -/
theorem Reached.append_unused (h : course.Reached store turns all job)
    {entries : List Enrichment}
    (hunused : ∀ entry ∈ entries, ¬course.footprint.Uses entry.column) :
    course.Reached store turns (all ++ entries) job := by
  obtain ⟨made, later, hsees, hmade, hsteady⟩ := h
  exact ⟨made, later, hsees.append_unused hunused, hmade, hsteady⟩

/-- With turns enough the job is at the end of its course. -/
theorem Reached.finished (h : course.Reached store turns all job) (hturns : course.calls ≤ turns) :
    job = .done course.report ∧ course.footprint.Sees course.entries all := by
  obtain ⟨made, later, hsees, hmade, hsteady⟩ := h
  rw [Nat.sub_eq_zero_of_le hturns] at hsteady
  obtain ⟨rfl, rfl⟩ := hsteady.eq_done
  rw [List.append_nil] at hmade
  exact ⟨rfl, hmade ▸ hsees⟩

end Reached

/-- The entries are those of the courses: each has its own ones, in their order, and there are no
others. -/
structure Settled (courses : List Course) (all : List Enrichment) : Prop where
  written : ∀ entry ∈ all, ∃ course ∈ courses, course.footprint.Writes entry.column
  sees : ∀ course ∈ courses, course.footprint.Sees course.entries all

variable {courses : List Course}

/-- The entries of courses are the same in every column, however they were mixed. -/
theorem Settled.entriesIn_eq {first second : List Enrichment} (hfirst : Settled courses first)
    (hsecond : Settled courses second) (column : Column) :
    entriesIn column first = entriesIn column second := by
  by_cases hwritten : ∃ course ∈ courses, course.footprint.Writes column
  · obtain ⟨course, hcourse, hwrites⟩ := hwritten
    rw [hfirst.sees course hcourse column (.inr hwrites),
      hsecond.sees course hcourse column (.inr hwrites)]
  · have hnone {entries : List Enrichment} (h : Settled courses entries) :
        entriesIn column entries = [] := by
      refine entriesIn_eq_nil fun entry hentry hcolumn => hwritten ?_
      exact hcolumn ▸ h.written entry hentry
    rw [hnone hfirst, hnone hsecond]

/-- Whether entries are those of the courses does not depend on the order of these. -/
theorem Settled.perm {others : List Course} {all : List Enrichment} (h : Settled courses all)
    (hperm : courses.Perm others) : Settled others all where
  written entry hentry := by
    obtain ⟨course, hcourse, hwrites⟩ := h.written entry hentry
    exact ⟨course, hperm.subset hcourse, hwrites⟩
  sees course hcourse := h.sees course (hperm.symm.subset hcourse)

section InTurn

variable {store : Store}

/-- Jobs that are run one after another come to their reports and make their entries. -/
theorem runEach_eq (hsteady : ∀ course ∈ courses, course.Steady store)
    (hapart : courses.Pairwise fun a b => a.footprint.Apart b.footprint) {world : World}
    {all : List Enrichment} (hstore : world.store = store.enterAll all)
    (hsees : ∀ course ∈ courses, course.footprint.Sees [] all) :
    ∃ after, Job.runEach .none (courses.map job) world =
        (courses.map fun course => .ok course.report, after) ∧
      after.store = store.enterAll (all ++ courses.flatMap entries) := by
  -- the entries so far are carried along, and none of the jobs to come sees them
  induction courses generalizing world all with
  | nil =>
    refine ⟨world, rfl, ?_⟩
    rw [List.flatMap_nil, List.append_nil]
    exact hstore
  | cons course rest ih =>
    obtain ⟨hfirst, hrest⟩ := List.forall_mem_cons.1 hsteady
    obtain ⟨hseesFirst, hseesRest⟩ := List.forall_mem_cons.1 hsees
    obtain ⟨hothers, hpairwise⟩ := List.pairwise_cons.1 hapart
    obtain ⟨between, hrun, hbetween⟩ := Job.Steady.run hfirst hstore hseesFirst
    have hunseen : ∀ other ∈ rest, other.footprint.Sees [] (all ++ course.entries) := by
      intro other hother
      refine (hseesRest other hother).append_unused fun entry hentry => ?_
      exact (hothers other hother entry.column).1 (Job.Steady.writes hfirst entry hentry)
    obtain ⟨after, hruns, hafter⟩ := ih hrest hpairwise hbetween hunseen
    refine ⟨after, ?_, ?_⟩
    · simp only [List.map_cons, Job.runEach, hrun, hruns]
    · rw [hafter, List.flatMap_cons, List.append_assoc]

/-- The entries of jobs run one after another are those of their courses. -/
theorem settled_flatMap (hsteady : ∀ course ∈ courses, course.Steady store)
    (hapart : courses.Pairwise fun a b => a.footprint.Apart b.footprint) :
    Settled courses (courses.flatMap entries) := by
  induction courses with
  | nil => exact ⟨by simp, by simp⟩
  | cons course rest ih =>
    obtain ⟨hfirst, hrest⟩ := List.forall_mem_cons.1 hsteady
    obtain ⟨hothers, hpairwise⟩ := List.pairwise_cons.1 hapart
    obtain ⟨hwritten, hsees⟩ := ih hrest hpairwise
    have hwrites := Job.Steady.writes hfirst
    rw [List.flatMap_cons]
    refine ⟨List.forall_mem_append.2 ⟨fun entry hentry => ?_, fun entry hentry => ?_⟩,
      List.forall_mem_cons.2 ⟨?_, fun other hother => ?_⟩⟩
    · exact ⟨course, List.mem_cons_self, hwrites entry hentry⟩
    · obtain ⟨other, hother, hentered⟩ := hwritten entry hentry
      exact ⟨other, List.mem_cons_of_mem _ hother, hentered⟩
    · -- what the later ones enter the first one does not use
      refine Footprint.Sees.append_unused (fun _ _ => rfl) fun entry hentry => ?_
      obtain ⟨other, hother, hentered⟩ := hwritten entry hentry
      exact (hothers other hother entry.column).2 hentered
    · intro column hused
      have hnone : entriesIn column course.entries = [] :=
        entriesIn_eq_nil fun entry hentry hcolumn =>
          (hothers other hother entry.column).1 (hwrites entry hentry) (hcolumn ▸ hused)
      rw [entriesIn_append, hnone, List.nil_append, hsees other hother column hused]

end InTurn

end Course

namespace System

variable {store : Store} {courses : List Course}

/-- After these turns every job is as far along its course as it has had turns, and the entries
are those that the jobs have made. -/
structure OnCourse (store : Store) (courses : List Course) (turns : List Nat)
    (all : List Enrichment) (system : System) : Prop where
  store_eq : system.store = store.enterAll all
  written : ∀ entry ∈ all, ∃ course ∈ courses, course.footprint.Writes entry.column
  length_eq : system.jobs.length = courses.length
  reached : ∀ (worker : Nat) (course : Course), courses[worker]? = some course →
    ∃ job, system.jobs[worker]? = some job ∧ course.Reached store (turns.count worker) all job

/-- Jobs about to be started are on course. -/
theorem onCourse_start {world : World} (hstore : world.store = store)
    (hsteady : ∀ course ∈ courses, course.Steady store) :
    OnCourse store courses [] [] ⟨world, courses.map Course.job⟩ where
  store_eq := hstore
  written := by simp
  length_eq := List.length_map ..
  reached worker course hcourse := by
    refine ⟨course.job, ?_, [], course.entries, fun _ _ => rfl, rfl, ?_⟩
    · rw [List.getElem?_map, hcourse, Option.map_some]
    · exact hsteady course (List.mem_of_getElem? hcourse)

/-- Of courses that are pairwise apart any two are. -/
theorem apart_of_ne (hapart : courses.Pairwise fun a b => a.footprint.Apart b.footprint)
    {worker other : Nat} (hne : worker ≠ other) {course second : Course}
    (hcourse : courses[worker]? = some course) (hsecond : courses[other]? = some second) :
    course.footprint.Apart second.footprint := by
  obtain ⟨hworker, rfl⟩ := List.getElem?_eq_some_iff.1 hcourse
  obtain ⟨hother, rfl⟩ := List.getElem?_eq_some_iff.1 hsecond
  have hindexed := List.pairwise_iff_getElem.1 hapart
  rcases Nat.lt_or_gt_of_ne hne with hlt | hgt
  · exact hindexed worker other hworker hother hlt
  · exact (hindexed other worker hother hworker hgt).symm

section Turns

variable {turns : List Nat} {all : List Enrichment} {system : System}

/-- The turn of a job leaves all of them on course. -/
theorem OnCourse.work (h : OnCourse store courses turns all system)
    (hapart : courses.Pairwise fun a b => a.footprint.Apart b.footprint) {worker : Nat}
    {course : Course} (hcourse : courses[worker]? = some course) :
    ∃ entries, OnCourse store courses (turns ++ [worker]) (all ++ entries)
      (system.step .none (.work worker)) := by
  obtain ⟨job, hjob, hreached⟩ := h.reached worker course hcourse
  obtain ⟨entries, hstore, hwrites, hnext⟩ := hreached.step h.store_eq
  have hworker : worker < system.jobs.length := (List.getElem?_eq_some_iff.1 hjob).1
  refine ⟨entries, ?_⟩
  simp only [System.step, hjob]
  refine ⟨hstore, ?_, ?_, fun other second hsecond => ?_⟩
  · refine List.forall_mem_append.2 ⟨h.written, fun entry hentry => ?_⟩
    exact ⟨course, List.mem_of_getElem? hcourse, hwrites entry hentry⟩
  · rw [List.length_set, h.length_eq]
  · rw [List.count_append]
    by_cases hsame : worker = other
    · subst hsame
      obtain rfl := Option.some.inj (hcourse.symm.trans hsecond)
      rw [List.count_singleton_self]
      exact ⟨_, List.getElem?_set_self hworker, hnext⟩
    · -- the others do not see what was entered
      obtain ⟨another, hanother, hstill⟩ := h.reached other second hsecond
      have hpair := apart_of_ne hapart hsame hcourse hsecond
      rw [List.count_singleton, if_neg (by simpa using hsame), Nat.add_zero,
        List.getElem?_set_ne hsame]
      exact ⟨another, hanother, hstill.append_unused fun entry hentry =>
        (hpair entry.column).1 (hwrites entry hentry)⟩

/-- A turn of nobody leaves them on course as well. -/
theorem OnCourse.idle (h : OnCourse store courses turns all system) {worker : Nat}
    (hnone : courses[worker]? = none) :
    OnCourse store courses (turns ++ [worker]) all (system.step .none (.work worker)) := by
  have hjob : system.jobs[worker]? = none := by
    rw [List.getElem?_eq_none_iff] at hnone ⊢
    exact h.length_eq ▸ hnone
  simp only [System.step, hjob]
  refine ⟨h.store_eq, h.written, h.length_eq, fun other second hsecond => ?_⟩
  have hne : worker ≠ other := by
    rintro rfl
    rw [hnone] at hsecond
    cases hsecond
  rw [List.count_append, List.count_singleton, if_neg (by simpa using hne), Nat.add_zero]
  exact h.reached other second hsecond

/-- So do any number of turns. -/
theorem onCourse_play {world : World} (hstore : world.store = store)
    (hsteady : ∀ course ∈ courses, course.Steady store)
    (hapart : courses.Pairwise fun a b => a.footprint.Apart b.footprint) (turns : List Nat) :
    ∃ all, OnCourse store courses turns all
      ((⟨world, courses.map Course.job⟩ : System).play .none (turns.map .work)) := by
  induction turns using List.reverseRecOn with
  | nil => exact ⟨[], onCourse_start hstore hsteady⟩
  | append_singleton earlier last ih =>
    obtain ⟨all, hearlier⟩ := ih
    rw [List.map_append, play_append]
    cases hcourse : courses[last]? with
    | none => exact ⟨all, hearlier.idle hcourse⟩
    | some course =>
      obtain ⟨entries, hlast⟩ := hearlier.work hapart hcourse
      exact ⟨all ++ entries, hlast⟩

/-- When every job has had turns enough, all have come to their reports, and the entries are those
of their courses. -/
theorem OnCourse.finished (h : OnCourse store courses turns all system)
    (hturns : ∀ worker course, courses[worker]? = some course →
      course.calls ≤ turns.count worker) :
    system.jobs = courses.map (fun course => .done course.report) ∧
      Course.Settled courses all := by
  refine ⟨List.ext_getElem? fun worker => ?_, h.written, fun course hcourse => ?_⟩
  · rw [List.getElem?_map]
    cases hcourse : courses[worker]? with
    | none =>
      rw [List.getElem?_eq_none_iff] at hcourse
      rw [Option.map_none, List.getElem?_eq_none_iff, h.length_eq]
      exact hcourse
    | some course =>
      obtain ⟨job, hjob, hreached⟩ := h.reached worker course hcourse
      obtain ⟨rfl, -⟩ := hreached.finished (hturns worker course hcourse)
      exact hjob
  · obtain ⟨worker, hworker⟩ := List.mem_iff_getElem?.1 hcourse
    obtain ⟨job, -, hreached⟩ := h.reached worker course hworker
    exact (hreached.finished (hturns worker course hworker)).2

end Turns

/-- Jobs that keep apart come to the same, however they take turns: when all have had turns enough,
their results are those of running them one after another in any order, and so are the records and,
up to its order, the log. -/
theorem play_eq_runEach {world : World}
    (hsteady : ∀ course ∈ courses, course.Steady world.store)
    (hapart : courses.Pairwise fun a b => a.footprint.Apart b.footprint) {turns : List Nat}
    (hturns : ∀ worker course, courses[worker]? = some course →
      course.calls ≤ turns.count worker)
    {order : List Course} (horder : courses.Perm order) :
    let together := (⟨world, courses.map Course.job⟩ : System).play .none (turns.map .work)
    let inTurn := Job.runEach .none (order.map Course.job) world
    together.jobs = courses.map (fun course => .done course.report) ∧
      inTurn.1 = order.map (fun course => .ok course.report) ∧
      together.store.Agrees inTurn.2.store ∧
      together.store.log.Perm inTurn.2.store.log := by
  intro together inTurn
  obtain ⟨all, hcourse⟩ := onCourse_play rfl hsteady hapart turns
  obtain ⟨hjobs, hsettled⟩ := hcourse.finished hturns
  have hsteadyOrder : ∀ course ∈ order, course.Steady world.store :=
    fun course hmem => hsteady course (horder.symm.subset hmem)
  have hapartOrder := hapart.perm horder fun h => h.symm
  have hstart : world.store = world.store.enterAll [] := rfl
  obtain ⟨after, hrun, hafter⟩ :=
    Course.runEach_eq hsteadyOrder hapartOrder hstart fun _ _ _ _ => rfl
  rw [List.nil_append] at hafter
  have hsame := (hsettled.perm horder).entriesIn_eq
    (Course.settled_flatMap hsteadyOrder hapartOrder)
  have htogether : together.store = world.store.enterAll all := hcourse.store_eq
  have hinTurn : inTurn = (order.map fun course => .ok course.report, after) := hrun
  rw [htogether, hinTurn, hafter, Store.log_enterAll, Store.log_enterAll]
  exact ⟨hjobs, rfl, world.store.agrees_enterAll hsame,
    (perm_of_entriesIn_eq hsame).append_left _⟩

end System

end Bookkeeping
