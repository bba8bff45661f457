import Bookkeeping.Proofs.Job.Run

/-!
# Jobs that fail

A call that fails leaves the store as it is, and what it fails for is no fault of a rule. So a job
that brings no fault of its own can only fail as one of its calls does; the job ends there, with the
world that this call has left.
-/

namespace Bookkeeping

/-- What a call passes on to a provider. -/
def Call.request? : Call → Option EnrichmentRequest
  | .suggest _ request => some request
  | _ => none

/-- Whatever the call asks a provider is asked for one of these action types. -/
def Call.AsksFor (keys : List String) (call : Call) : Prop :=
  ∀ request ∈ call.request?, request.actionType ∈ keys

/-- A call that asks no provider may stand among any action types. -/
theorem Call.asksFor_of_request?_eq_none {call : Call} (h : call.request? = none)
    (keys : List String) : call.AsksFor keys := by
  simp [AsksFor, h]

/-- Among more action types a call may stand as well. -/
theorem Call.AsksFor.mono {keys others : List String} {call : Call} (h : call.AsksFor keys)
    (hkeys : keys ⊆ others) : call.AsksFor others :=
  fun request hrequest => hkeys (h request hrequest)

namespace World

variable {α : Type} {world after : World} {outage : Outage} {cause : Failure} {call : Call}

/-- A use of the store fails for a reason of the store. -/
theorem exists_storeError_of_useStore {op : Operation}
    {use : Store → Except StoreError (α × Store)}
    (h : (world.useStore outage op use).1 = .error cause) :
    ∃ reason, cause = .store reason := by
  unfold useStore at h
  split at h
  · exact ⟨_, (Except.error.inj h).symm⟩
  · split at h
    · cases h
    · exact ⟨_, (Except.error.inj h).symm⟩

/-- What a call fails for is no fault of a rule. -/
theorem answer_ne_refusal (outage : Outage) (world : World) (call : Call) (fault : RuleError) :
    (world.answer outage call).1 ≠ .error (.rule fault) := by
  intro h
  have hstore : ¬∃ reason, Failure.rule fault = .store reason := by simp
  cases call with
  | pin => exact hstore (exists_storeError_of_useStore h)
  | count => exact hstore (exists_storeError_of_useStore h)
  | records => exact hstore (exists_storeError_of_useStore h)
  | updateAll => exact hstore (exists_storeError_of_useStore h)
  | updateEach => exact hstore (exists_storeError_of_useStore h)
  | suggest provider request =>
    cases hprovider : provider world.requests request with
    | ok suggestions => simp [answer, askProvider, hprovider, Except.mapError] at h
    | error reason => simp [answer, askProvider, hprovider, Except.mapError] at h

/-- A call that fails leaves the store as it is. -/
theorem store_of_answer_eq_error (h : world.answer outage call = (.error cause, after)) :
    after.store = world.store := by
  rcases world.answer_cases outage call with ⟨_, _, _, -, -, hanswer⟩ | ⟨_, _, hstore, hanswer⟩
  · rw [h] at hanswer
    cases (Prod.mk.inj hanswer).1
  · rw [h] at hanswer
    rw [(Prod.mk.inj hanswer).2]
    exact hstore

/-- A call adds what it passes on to the requests, whether it is answered or not. -/
theorem requests_answer (outage : Outage) (world : World) (call : Call) :
    (world.answer outage call).2.requests = call.request?.toList ++ world.requests := by
  have huse {β : Type} (op : Operation) (use : Store → Except StoreError (β × Store)) :
      (world.useStore outage op use).2.requests = world.requests := by
    unfold useStore
    split
    · rfl
    · split <;> rfl
  cases call with
  | pin => exact huse ..
  | count => exact huse ..
  | records => exact huse ..
  | updateAll => exact huse ..
  | updateEach => exact huse ..
  | suggest => rfl

/-- A use of the store that is answered while others fail is answered the same when none does. -/
theorem useStore_none_of_eq_ok {op : Operation} {use : Store → Except StoreError (α × Store)}
    {answer : α} (h : world.useStore outage op use = (.ok answer, after)) :
    world.useStore .none op use = (.ok answer, after) := by
  unfold useStore at h
  split at h
  · cases (Prod.mk.inj h).1
  · exact h

private theorem answer_none_of_eq_ok {answer : call.Answer}
    (h : world.answer outage call = (.ok answer, after)) :
    world.answer .none call = (.ok answer, after) := by
  cases call with
  | suggest => exact h
  | _ =>
    simp only [World.answer, readStore] at h ⊢
    exact useStore_none_of_eq_ok h

end World

namespace Job

variable {α β : Type} {outage : Outage} {world after : World} {cause : Failure}

/-- The job has no fault of its own: whatever its calls are answered, it goes on to its result, and
the calls are of this kind. -/
inductive Makes (kind : Call → Prop) : Job α → Prop
  | done (result : α) : Makes kind (.done result)
  | ask {call : Call} {next : call.Answer → Job α} (hcall : kind call)
      (hnext : ∀ answer, Makes kind (next answer)) : Makes kind (.ask call next)

variable {kind other : Call → Prop}

/-- A job that makes calls of one kind does so with such a job behind it. -/
theorem Makes.bind {job : Job α} {next : α → Job β} (hjob : job.Makes kind)
    (hnext : ∀ result, (next result).Makes kind) : (job >>= next).Makes kind := by
  change (job.bind next).Makes kind
  induction hjob with
  | done result => exact hnext result
  | ask hcall _ ih => exact .ask hcall ih

/-- Calls of one kind are calls of a wider kind. -/
theorem Makes.mono {job : Job α} (hjob : job.Makes kind) (hkind : ∀ call, kind call → other call) :
    job.Makes other := by
  induction hjob with
  | done result => exact .done result
  | ask hcall _ ih => exact .ask (hkind _ hcall) ih

/-- A single call is a job that makes this call. -/
theorem makes_call {call : Call} (h : kind call) : (Job.call call).Makes kind :=
  .ask h fun answer => .done answer

/-- A job without a fault of its own does not end with one. -/
theorem Makes.run_ne_refusal {job : Job α} (hjob : job.Makes kind) (outage : Outage)
    (world : World) (fault : RuleError) : (job.run outage world).1 ≠ .error (.rule fault) := by
  induction hjob generalizing world with
  | done result => simp [run]
  | @ask call next hcall hnext ih =>
    rw [run]
    cases hanswer : world.answer outage call with
    | mk answered between =>
      cases answered with
      | ok answer => exact ih answer between
      | error reason =>
        have hreason := world.answer_ne_refusal outage call fault
        rw [hanswer] at hreason
        simpa using hreason

/-- A provider is asked only what calls of the kind pass on, also by a job that fails. -/
theorem Makes.exists_requests {job : Job α} (hjob : job.Makes kind) (outage : Outage)
    (world : World) :
    ∃ made, (job.run outage world).2.requests = made ++ world.requests ∧
      ∀ request ∈ made, ∃ call, kind call ∧ call.request? = some request := by
  induction hjob generalizing world with
  | done result => exact ⟨[], rfl, by simp⟩
  | @ask call next hcall hnext ih =>
    have hpassed : ∀ request ∈ call.request?.toList, ∃ call, kind call ∧
        call.request? = some request :=
      fun request hrequest => ⟨call, hcall, Option.mem_toList.1 hrequest⟩
    have hrequests := world.requests_answer outage call
    rw [run]
    cases hanswer : world.answer outage call with
    | mk answered between =>
      rw [hanswer] at hrequests
      cases answered with
      | ok answer =>
        -- requests are kept latest first, so those made later stand before that of the call
        obtain ⟨made, hmade, hkind⟩ := ih answer between
        refine ⟨made ++ call.request?.toList, ?_, List.forall_mem_append.2 ⟨hkind, hpassed⟩⟩
        rw [hrequests, ← List.append_assoc] at hmade
        exact hmade
      | error reason => exact ⟨call.request?.toList, hrequests, hpassed⟩

/-- Two jobs in a row fail as the first does, or else as the second does after it. -/
theorem run_bind_eq_error_iff {job : Job α} {next : α → Job β} :
    (job >>= next).run outage world = (.error cause, after) ↔
      job.run outage world = (.error cause, after) ∨
        ∃ middle between, job.run outage world = (.ok middle, between) ∧
          (next middle).run outage between = (.error cause, after) := by
  rw [run_bind]
  cases hjob : job.run outage world with
  | mk answer between =>
    cases answer with
    | error reason => simp
    | ok middle => simp

/-- A check that is passed gives its result to what follows. -/
@[simp]
theorem ofRule_ok_bind (result : α) (next : α → Job β) :
    (ofRule (.ok result) >>= next) = next result :=
  rfl

/-- A job that is done does not fail. -/
theorem run_pure_ne_error (result : α) :
    (pure result : Job α).run outage world ≠ (.error cause, after) := by
  intro h
  cases (Prod.mk.inj h).1

/-- A check fails with its error, and the world stays as it is. -/
theorem run_ofRule_eq_error_iff {check : Except RuleError α} :
    (ofRule check).run outage world = (.error cause, after) ↔
      ∃ fault, check = .error fault ∧ cause = .rule fault ∧ after = world := by
  cases check with
  | ok result => simp [ofRule, run]
  | error fault => simp [ofRule, run, eq_comm]

/-- A call whose run fails has left the store as it was. -/
theorem store_of_run_call_eq_error {call : Call}
    (h : (Job.call call).run outage world = (.error cause, after)) : after.store = world.store := by
  rw [Job.call, run] at h
  cases hanswer : world.answer outage call with
  | mk answered between =>
    rw [hanswer] at h
    cases answered with
    | ok answer => cases (Prod.mk.inj h).1
    | error reason =>
      obtain ⟨-, rfl⟩ := Prod.mk.inj h
      exact World.store_of_answer_eq_error hanswer

/-- A run that ends with a result while calls may fail is the run in which none does. -/
theorem run_none_of_eq_ok {job : Job α} {result : α}
    (h : job.run outage world = (.ok result, after)) :
    job.run .none world = (.ok result, after) := by
  induction job generalizing world with
  | done returned => exact h
  | fail reason => exact h
  | ask call next ih =>
    rw [run] at h ⊢
    cases hanswer : world.answer outage call with
    | mk answered between =>
      rw [hanswer] at h
      cases answered with
      | ok answer =>
        rw [World.answer_none_of_eq_ok hanswer]
        exact ih answer h
      | error reason => cases (Prod.mk.inj h).1

end Job

end Bookkeeping
