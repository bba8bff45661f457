import Bookkeeping.Proofs.Job.Uses

/-!
# Jobs that miss no join

A collection can be used when it misses no join. What it is then pinned to can be used as well, as
nothing is read of the pinned records but their numbers. So a job that uses such collections only,
and those that it is answered with, never fails for a missing join, whatever else goes wrong.
-/

namespace Bookkeeping

/-- The collection that the call uses, if any, misses no join. -/
def Call.WellJoined (call : Call) : Prop :=
  ∀ collection, call.collection? = some collection → Store.checkJoins collection = .ok ()

/-- A call is well joined when the one collection that it uses misses no join. -/
theorem Call.WellJoined.of_checkJoins {call : Call} {collection : Collection}
    (hcall : call.collection? = some collection) (h : Store.checkJoins collection = .ok ()) :
    call.WellJoined := by
  intro other hother
  obtain rfl := Option.some.inj (hcall.symm.trans hother)
  exact h

/-- A collection that the call is answered with misses no join. -/
def Call.AnswerJoined : (call : Call) → call.Answer → Prop
  | .pin _, pinned => Store.checkJoins pinned = .ok ()
  | .count _, _ => True
  | .records _, _ => True
  | .updateAll .., _ => True
  | .updateEach .., _ => True
  | .suggest .., _ => True

/-- Every call that the job can come to is well joined, given that those before it were answered
with collections that miss no join. By itself the job gives up only for faults of a rule. -/
inductive Job.WellJoined {α : Type} : Job α → Prop
  | done (result : α) : WellJoined (.done result)
  | refuse (cause : RuleError) : WellJoined (.fail (.rule cause))
  | ask {call : Call} {next : call.Answer → Job α} (hcall : call.WellJoined)
      (hnext : ∀ answer, call.AnswerJoined answer → WellJoined (next answer)) :
      WellJoined (.ask call next)

namespace World

variable {outage : Outage} {world after : World} {column : Column} {table : String}

/-- A use that fails for a missing join was refused by the store, as an outage names none. -/
theorem refused_of_useStore {α : Type} {op : Operation}
    {use : Store → Except StoreError (α × Store)}
    (h : (world.useStore outage op use).1 = .error (.store (.missingJoin column table))) :
    use world.store = .error (.missingJoin column table) := by
  unfold useStore at h
  split at h
  · cases h
  · split at h
    · cases h
    · rename_i cause hcause
      rw [hcause, Failure.store.inj (Except.error.inj h)]

/-- A well-joined call does not fail for a missing join. -/
theorem answer_ne_missingJoin {call : Call} (hcall : call.WellJoined) (outage : Outage)
    (world : World) (column : Column) (table : String) :
    (world.answer outage call).1 ≠ .error (.store (.missingJoin column table)) := by
  intro h
  cases call with
  | pin collection =>
    have hrefused := map_eq_error_iff.1 (refused_of_useStore h)
    simp [Store.pin, hcall collection rfl] at hrefused
  | count collection =>
    have hrefused := map_eq_error_iff.1 (refused_of_useStore h)
    simp [Store.count, hcall collection rfl] at hrefused
  | records collection =>
    have hrefused := map_eq_error_iff.1 (refused_of_useStore h)
    simp [Store.snapshots, hcall collection rfl] at hrefused
  | updateAll collection =>
    have hrefused := refused_of_useStore h
    simp [Store.updateAll, hcall collection rfl] at hrefused
  | updateEach collection =>
    have hrefused := refused_of_useStore h
    simp [Store.updateEach, hcall collection rfl] at hrefused
  | suggest provider request =>
    cases hprovider : provider world.requests request with
    | ok suggestions => simp [answer, askProvider, hprovider, Except.mapError] at h
    | error cause => simp [answer, askProvider, hprovider, Except.mapError] at h

/-- A collection that a call is answered with misses no join. -/
theorem answerJoined_of_answer {call : Call} {answer : call.Answer}
    (h : world.answer outage call = (.ok answer, after)) : call.AnswerJoined answer := by
  obtain ⟨entries, hserves, -⟩ := serves_of_answer outage h
  cases call with
  | pin collection =>
    -- a pinned collection has no restriction left that could read a column
    obtain ⟨-, rfl, -⟩ := hserves
    rfl
  | count => exact trivial
  | records => exact trivial
  | updateAll => exact trivial
  | updateEach => exact trivial
  | suggest => exact trivial

end World

namespace Job

variable {α β : Type}

/-- A well-joined job stays so with a well-joined job behind it. -/
theorem WellJoined.bind {job : Job α} {next : α → Job β} (hjob : job.WellJoined)
    (hnext : ∀ result, (next result).WellJoined) : (job >>= next).WellJoined := by
  change (job.bind next).WellJoined
  induction hjob with
  | done result => exact hnext result
  | refuse cause => exact .refuse cause
  | ask hcall _ ih => exact .ask hcall ih

/-- A well-joined call stays so with a job behind it that is well joined for joined answers. -/
theorem WellJoined.call_bind {call : Call} {next : call.Answer → Job α}
    (hcall : call.WellJoined)
    (hnext : ∀ answer, call.AnswerJoined answer → (next answer).WellJoined) :
    (Job.call call >>= next).WellJoined :=
  .ask hcall hnext

/-- A well-joined call is a well-joined job. -/
theorem wellJoined_call {call : Call} (h : call.WellJoined) : (Job.call call).WellJoined :=
  .ask h fun answer _ => .done answer

/-- A check uses no collection, so what is well joined behind it is well joined with it. -/
theorem WellJoined.ofRule_bind {check : Except RuleError α} {next : α → Job β}
    (hnext : ∀ result, check = .ok result → (next result).WellJoined) :
    (Job.ofRule check >>= next).WellJoined := by
  cases check with
  | ok result => exact hnext result rfl
  | error cause => exact .refuse cause

/-- A well-joined job does not fail for a missing join, whatever the outage. -/
theorem WellJoined.run_ne_missingJoin {job : Job α} (hjob : job.WellJoined) (outage : Outage)
    (world : World) (column : Column) (table : String) :
    (job.run outage world).1 ≠ .error (.store (.missingJoin column table)) := by
  induction hjob generalizing world with
  | done result => simp [run]
  | refuse cause => simp [run]
  | @ask call next hcall _ ih =>
    rw [run]
    cases hanswer : world.answer outage call with
    | mk answered between =>
      cases answered with
      | ok answer => exact ih answer (World.answerJoined_of_answer hanswer) between
      | error cause =>
        have hcause := World.answer_ne_missingJoin hcall outage world column table
        rw [hanswer] at hcause
        simpa using hcause

end Job

end Bookkeeping
