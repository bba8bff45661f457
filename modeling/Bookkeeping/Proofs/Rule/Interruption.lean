import Bookkeeping.Proofs.Rule.Refusal

/-!
# Rules that break off

Applying a rule that its check lets through fails only as one of its calls does. If the records
cannot be pinned and counted, nothing has been written. Otherwise some action is the first to fail:
what the actions before it have written stays, the action itself has written nothing, since its
write is the last of its calls, and those after it are not begun.
-/

namespace Bookkeeping

/-- What a rule does before its actions: the records that it matches are pinned and counted. -/
def Rule.pinMatching (rule : Rule) (registry : Registry) : Job (Collection × Nat) := do
  let matching ← Job.ofRule (rule.matching registry)
  let pinned ← Job.call (.pin matching)
  let matched ← Job.call (.count pinned)
  return (pinned, matched)

/-- The part of a rule up to an action: those before it are performed on what the rule matches,
which is the result. -/
def Rule.performFirst (rule : Rule) (registry : Registry) (ignoreLocks : Bool) (k : Nat) :
    Job Collection := do
  let (pinned, _) ← rule.pinMatching registry
  let _ ← registry.executeAll pinned ignoreLocks (rule.actions.take k)
  return pinned

/-- A rule has been applied up to the action at an index, and no further. -/
structure Rule.HaltsAt (rule : Rule) (registry : Registry) (ignoreLocks : Bool) (world : World)
    (k : Nat) (after : World) : Prop where
  /-- The store is the one that the actions before it leave where no call fails. -/
  alone : ∃ pinned before,
    (rule.performFirst registry ignoreLocks k).run .none world = (.ok pinned, before) ∧
      after.store = before.store
  /-- What they have entered is in records that the rule matched before the first of them. -/
  entered : ∃ collection outcomes entries, rule.matching registry = .ok collection ∧
    Performs registry.catalog registry.settings.source
      (writable (world.store.select collection) ignoreLocks) (rule.actions.take k) outcomes
      entries ∧
    after.store = world.store.enterAll entries
  /-- A provider has been asked nothing for the actions after it. -/
  unasked : ∃ made, after.requests = made ++ world.requests ∧
    ∀ request ∈ made, ∀ later ∈ rule.actions.drop (k + 1), request.actionType ≠ later.typeKey

namespace Registry

variable {registry : Registry} {outage : Outage} {world after : World} {cause : Failure}
  {collection : Collection} {ignoreLocks : Bool}

/-- Asking a provider writes at the very end, so it has written nothing if it fails. -/
theorem store_of_enrich_eq_error {type : ActionType} {value : Value} {target : Collection}
    (h : (registry.enrich type value target).run outage world = (.error cause, after)) :
    after.store = world.store := by
  unfold enrich at h
  split at h
  · obtain ⟨-, rfl⟩ := Prod.mk.inj h
    rfl
  · rcases Job.run_bind_eq_error_iff.1 h with h | ⟨records, middle, hrecords, h⟩
    · exact Job.store_of_run_call_eq_error h
    · obtain ⟨_, ⟨-, -, rfl⟩, hmiddle⟩ := Job.serves_of_run_call hrecords
      split at h
      · exact absurd h (Job.run_pure_ne_error _)
      · rcases Job.run_bind_eq_error_iff.1 h with h | ⟨suggestions, last, hsuggestions, h⟩
        · exact (Job.store_of_run_call_eq_error h).trans hmiddle
        · obtain ⟨_, rfl, hlast⟩ := Job.serves_of_run_call hsuggestions
          dsimp only at h
          split at h
          · exact absurd h (Job.run_pure_ne_error _)
          · exact (Job.store_of_run_call_eq_error h).trans (hlast.trans hmiddle)

/-- An action that fails has written nothing. -/
theorem store_of_execute_eq_error {action : Action}
    (h : (registry.execute action collection ignoreLocks).run outage world =
      (.error cause, after)) : after.store = world.store := by
  unfold execute at h
  simp only [Job.run_bind_eq_error_iff, Job.run_ofRule_eq_error_iff,
    Job.run_ofRule_eq_ok_iff] at h
  rcases h with ⟨_, -, -, rfl⟩ | ⟨type, _, ⟨-, rfl⟩, ⟨_, -, -, rfl⟩ | ⟨value, _, ⟨-, rfl⟩, h⟩⟩
  · rfl
  · rfl
  · split at h
    · exact Job.store_of_run_call_eq_error h
    · exact Job.store_of_run_call_eq_error h
    · exact store_of_enrich_eq_error h

/-- Actions in a row fail as the first one that does, after those before it. -/
theorem run_executeAll_eq_error_iff {actions : List Action} :
    (registry.executeAll collection ignoreLocks actions).run outage world = (.error cause, after) ↔
      ∃ k action outcomes before, actions[k]? = some action ∧
        (registry.executeAll collection ignoreLocks (actions.take k)).run outage world =
          (.ok outcomes, before) ∧
        (registry.execute action collection ignoreLocks).run outage before =
          (.error cause, after) := by
  induction actions generalizing world with
  | nil =>
    constructor
    · intro h
      exact absurd h (Job.run_pure_ne_error _)
    · rintro ⟨k, action, outcomes, before, hk, -⟩
      simp at hk
  | cons action rest ih =>
    rw [executeAll, Job.run_bind_eq_error_iff]
    constructor
    · rintro (h | ⟨written, middle, hfirst, h⟩)
      · exact ⟨0, action, [], world, rfl, rfl, h⟩
      · rcases Job.run_bind_eq_error_iff.1 h with h | ⟨_, _, -, h⟩
        · obtain ⟨k, failing, outcomes, before, hk, hbefore, hfails⟩ := ih.1 h
          refine ⟨k + 1, failing, ⟨action.typeKey, written⟩ :: outcomes, before, hk, ?_, hfails⟩
          rw [List.take_succ_cons, executeAll]
          simp only [Job.run_bind_eq_ok_iff, Job.run_pure_eq_ok_iff]
          exact ⟨written, middle, hfirst, outcomes, before, hbefore, rfl, rfl⟩
        · exact absurd h (Job.run_pure_ne_error _)
    · rintro ⟨k, failing, outcomes, before, hk, hbefore, hfails⟩
      cases k with
      | zero =>
        obtain rfl := Option.some.inj hk
        obtain ⟨-, rfl⟩ := Job.run_pure_eq_ok_iff.1 hbefore
        exact .inl hfails
      | succ k =>
        rw [List.take_succ_cons, executeAll] at hbefore
        simp only [Job.run_bind_eq_ok_iff, Job.run_pure_eq_ok_iff] at hbefore
        obtain ⟨written, middle, hfirst, others, _, hothers, -, rfl⟩ := hbefore
        refine .inr ⟨written, middle, hfirst, Job.run_bind_eq_error_iff.2 (.inl ?_)⟩
        exact ih.2 ⟨k, failing, others, _, hk, hothers, hfails⟩

end Registry

namespace Rule

variable {rule : Rule} {registry : Registry} {ignoreLocks : Bool} {outage : Outage}
  {world before after : World} {cause : Failure} {pinned : Collection} {matched k : Nat}

/-- Pinning and counting write nothing. -/
theorem store_of_pinMatching_eq_ok
    (h : (rule.pinMatching registry).run outage world = (.ok (pinned, matched), after)) :
    (∃ collection, rule.matching registry = .ok collection ∧
      pinned = world.store.pinned collection) ∧ after.store = world.store := by
  simp only [pinMatching, Job.run_bind_eq_ok_iff, Job.run_ofRule_eq_ok_iff,
    Job.run_pure_eq_ok_iff] at h
  obtain ⟨collection, _, ⟨hmatching, rfl⟩, _, middle, hpin, _, _, hcount, heq, rfl⟩ := h
  obtain ⟨rfl, rfl⟩ := Prod.mk.inj heq
  obtain ⟨_, ⟨-, rfl, rfl⟩, hmiddle⟩ := Job.serves_of_run_call hpin
  obtain ⟨_, ⟨-, rfl, rfl⟩, hlast⟩ := Job.serves_of_run_call hcount
  exact ⟨⟨collection, hmatching, rfl⟩, hlast.trans hmiddle⟩

private theorem store_of_pinMatching_eq_error
    (h : (rule.pinMatching registry).run outage world = (.error cause, after)) :
    after.store = world.store := by
  simp only [pinMatching, Job.run_bind_eq_error_iff, Job.run_ofRule_eq_error_iff,
    Job.run_ofRule_eq_ok_iff] at h
  rcases h with ⟨_, -, -, rfl⟩ | ⟨collection, _, ⟨-, rfl⟩, h | ⟨pinned, middle, hpin, h⟩⟩
  · rfl
  · exact Job.store_of_run_call_eq_error h
  · obtain ⟨_, ⟨-, -, rfl⟩, hmiddle⟩ := Job.serves_of_run_call hpin
    rcases h with h | ⟨_, _, -, h⟩
    · exact (Job.store_of_run_call_eq_error h).trans hmiddle
    · exact absurd h (Job.run_pure_ne_error _)

/-- A rule that its check lets through is applied by pinning what it matches and then performing its
actions. -/
theorem applyWith_eq_of_validate (h : rule.validate registry = .ok ()) :
    rule.applyWith registry ignoreLocks = (do
      let (pinned, matched) ← rule.pinMatching registry
      let outcomes ← registry.executeAll pinned ignoreLocks rule.actions
      return ⟨rule.displayName, matched, outcomes⟩) := by
  obtain ⟨collection, hmatching⟩ := (valid_of_validate h).exists_matching
  rw [applyWith, pinMatching, h, hmatching]
  rfl

/-- Applying a rule fails as pinning does, or else as the first action that fails. -/
theorem run_applyWith_eq_error_iff (h : rule.validate registry = .ok ()) :
    (rule.applyWith registry ignoreLocks).run outage world = (.error cause, after) ↔
      (rule.pinMatching registry).run outage world = (.error cause, after) ∨
        ∃ k action pinned before, rule.actions[k]? = some action ∧
          (rule.performFirst registry ignoreLocks k).run outage world = (.ok pinned, before) ∧
          (registry.execute action pinned ignoreLocks).run outage before =
            (.error cause, after) := by
  rw [applyWith_eq_of_validate h, Job.run_bind_eq_error_iff]
  refine or_congr_right ?_
  -- the report is put together without a call, so only an action can fail from here on
  simp only [performFirst, Job.run_bind_eq_ok_iff, Job.run_pure_eq_ok_iff,
    Job.run_bind_eq_error_iff, Registry.run_executeAll_eq_error_iff]
  constructor
  · rintro ⟨⟨pinned, matched⟩, start, hpin, ⟨k, action, outcomes, before, hk, hbefore, hfails⟩ |
      ⟨_, _, -, h⟩⟩
    · exact ⟨k, action, pinned, before, hk, ⟨(pinned, matched), start, hpin, outcomes, before,
        hbefore, rfl, rfl⟩, hfails⟩
    · exact absurd h (Job.run_pure_ne_error _)
  · rintro ⟨k, action, _, _, hk, ⟨⟨pinned, matched⟩, start, hpin, outcomes, before, hbefore, rfl,
      rfl⟩, hfails⟩
    exact ⟨(pinned, matched), start, hpin, .inl ⟨k, action, outcomes, before, hk, hbefore, hfails⟩⟩

/-- No provider is asked before the first action. -/
theorem makes_pinMatching {collection : Collection}
    (hmatching : rule.matching registry = .ok collection) :
    (rule.pinMatching registry).Makes (·.request? = none) := by
  simp only [pinMatching, hmatching, Job.ofRule_ok_bind]
  refine (Job.makes_call (by rfl)).bind fun pinned => ?_
  exact (Job.makes_call (by rfl)).bind fun matched => .done _

/-- The part of a rule up to an action asks a provider only for the actions in it. -/
theorem makes_performFirst_execute (h : rule.validate registry = .ok ()) {action : Action}
    (hk : rule.actions[k]? = some action) (ignoreLocks : Bool) :
    (rule.performFirst registry ignoreLocks k >>= fun pinned =>
      registry.execute action pinned ignoreLocks).Makes
        (·.AsksFor ((rule.actions.take (k + 1)).map Action.typeKey)) := by
  have hvalid := valid_of_validate h
  obtain ⟨collection, hmatching⟩ := hvalid.exists_matching
  have htake : rule.actions.take (k + 1) = rule.actions.take k ++ [action] := by
    rw [List.take_add_one, hk]
    rfl
  have hfirst : ∀ action ∈ rule.actions.take k, registry.Permits action :=
    fun action hmem => hvalid.permitted action (List.mem_of_mem_take hmem)
  have hlast := hvalid.permitted action (List.mem_of_getElem? hk)
  rw [htake, List.map_append]
  refine Job.Makes.bind ?_ fun pinned =>
    (hlast.makes_execute pinned ignoreLocks).mono fun call hcall => hcall.mono (by simp)
  refine Job.Makes.bind ?_ fun matching => Job.Makes.bind ?_ fun _ => .done _
  · exact (makes_pinMatching hmatching).mono fun call hcall =>
      Call.asksFor_of_request?_eq_none hcall _
  · exact (Registry.makes_executeAll hfirst matching.1 ignoreLocks).mono fun call hcall =>
      hcall.mono (by simp)

/-- No action is of the type of one after it. -/
theorem Valid.typeKey_ne_of_mem_drop (hvalid : rule.Valid registry) {key : String}
    (hkey : key ∈ (rule.actions.take k).map Action.typeKey) :
    ∀ later ∈ rule.actions.drop k, key ≠ later.typeKey := by
  have hdistinct := hvalid.distinct
  rw [← List.take_append_drop k rule.actions, List.map_append, List.nodup_append] at hdistinct
  intro later hlater
  exact hdistinct.2.2 key hkey later.typeKey (List.mem_map_of_mem hlater)

/-- An action that is the first to fail leaves the rule applied up to it. -/
theorem haltsAt_of_execute_eq_error (h : rule.validate registry = .ok ()) {action : Action}
    (hk : rule.actions[k]? = some action)
    (hfirst : (rule.performFirst registry ignoreLocks k).run outage world = (.ok pinned, before))
    (hfails : (registry.execute action pinned ignoreLocks).run outage before =
      (.error cause, after)) : rule.HaltsAt registry ignoreLocks world k after := by
  have hstore := Registry.store_of_execute_eq_error hfails
  refine ⟨⟨pinned, before, Job.run_none_of_eq_ok hfirst, hstore⟩, ?_, ?_⟩
  · simp only [performFirst, Job.run_bind_eq_ok_iff, Job.run_pure_eq_ok_iff] at hfirst
    obtain ⟨⟨_, matched⟩, start, hpin, outcomes, _, houtcomes, rfl, rfl⟩ := hfirst
    obtain ⟨⟨collection, hmatching, rfl⟩, hstart⟩ := store_of_pinMatching_eq_ok hpin
    have hbegun : start.store = world.store.enterAll [] := hstart
    obtain ⟨entries, hperforms, hentered⟩ := Registry.performs_executeAll hbegun houtcomes
    exact ⟨collection, outcomes, entries, hmatching, hperforms, hstore.trans hentered⟩
  · have hrun : (rule.performFirst registry ignoreLocks k >>= fun pinned =>
        registry.execute action pinned ignoreLocks).run outage world = (.error cause, after) :=
      Job.run_bind_eq_error_iff.2 (.inr ⟨pinned, before, hfirst, hfails⟩)
    obtain ⟨made, hmade, hasked⟩ :=
      (makes_performFirst_execute h hk ignoreLocks).exists_requests outage world
    rw [hrun] at hmade
    refine ⟨made, hmade, fun request hrequest => ?_⟩
    obtain ⟨call, hcall, hpassed⟩ := hasked request hrequest
    exact (valid_of_validate h).typeKey_ne_of_mem_drop (hcall request hpassed)

/-- A rule that cannot be applied to its end leaves the store as it was, or is applied up to an
action. -/
theorem haltsAt_of_applyWith_eq_error
    (h : (rule.applyWith registry ignoreLocks).run outage world = (.error cause, after)) :
    after.store = world.store ∨ ∃ k, rule.HaltsAt registry ignoreLocks world k after := by
  cases hvalidate : rule.validate registry with
  | error fault =>
    rw [applyWith, hvalidate] at h
    obtain ⟨-, rfl⟩ := Prod.mk.inj h
    exact .inl rfl
  | ok =>
    rcases (run_applyWith_eq_error_iff hvalidate).1 h with
      hpin | ⟨k, action, pinned, before, hk, hfirst, hfails⟩
    · exact .inl (store_of_pinMatching_eq_error hpin)
    · exact .inr ⟨k, haltsAt_of_execute_eq_error hvalidate hk hfirst hfails⟩

/-- **Breaking off.** Let a rule be let through by its check. If the records that it matches cannot
be pinned and counted, applying it fails for that cause, with nothing written and no provider asked.
If some action is the first to fail, applying the rule fails for that very cause, in the world that
this action has left: the action itself has written nothing, and the rule has been applied up to
it and no further. Applying the rule fails in no other way. -/
theorem applyWith_breaks_off (h : rule.validate registry = .ok ()) (ignoreLocks : Bool)
    (outage : Outage) (world : World) :
    (∀ cause after, (rule.pinMatching registry).run outage world = (.error cause, after) →
      (rule.applyWith registry ignoreLocks).run outage world = (.error cause, after) ∧
        after.store = world.store ∧ after.requests = world.requests) ∧
    (∀ k action pinned before cause after, rule.actions[k]? = some action →
      (rule.performFirst registry ignoreLocks k).run outage world = (.ok pinned, before) →
      (registry.execute action pinned ignoreLocks).run outage before = (.error cause, after) →
      (rule.applyWith registry ignoreLocks).run outage world = (.error cause, after) ∧
        after.store = before.store ∧ rule.HaltsAt registry ignoreLocks world k after) ∧
    ∀ cause after, (rule.applyWith registry ignoreLocks).run outage world = (.error cause, after) →
      (rule.pinMatching registry).run outage world = (.error cause, after) ∨
        ∃ k action pinned before, rule.actions[k]? = some action ∧
          (rule.performFirst registry ignoreLocks k).run outage world = (.ok pinned, before) ∧
          (registry.execute action pinned ignoreLocks).run outage before =
            (.error cause, after) := by
  refine ⟨fun cause after hpin => ?_, fun k action pinned before cause after hk hfirst hfails => ?_,
    fun cause after => (run_applyWith_eq_error_iff h).1⟩
  · obtain ⟨collection, hmatching⟩ := (valid_of_validate h).exists_matching
    obtain ⟨made, hmade, hasked⟩ := (makes_pinMatching hmatching).exists_requests outage world
    have hnone : made = [] := by
      refine List.eq_nil_iff_forall_not_mem.2 fun request hrequest => ?_
      obtain ⟨call, hcall, hpassed⟩ := hasked request hrequest
      rw [hcall] at hpassed
      cases hpassed
    rw [hpin, hnone] at hmade
    exact ⟨(run_applyWith_eq_error_iff h).2 (.inl hpin), store_of_pinMatching_eq_error hpin, hmade⟩
  · exact ⟨(run_applyWith_eq_error_iff h).2 (.inr ⟨k, action, pinned, before, hk, hfirst, hfails⟩),
      Registry.store_of_execute_eq_error hfails, haltsAt_of_execute_eq_error h hk hfirst hfails⟩

end Rule

namespace Sample

/-- A provider that does not answer. -/
def down : Provider := fun _ _ => .error (.unavailable "timeout")

/-- Meals get a merchant, then a category that a provider suggests, then a merchant that it
suggests. -/
def suggested : Rule :=
  { meals with
    actions := [⟨"set_transaction_merchant", .text "m2"⟩, ⟨"auto_categorize", .text ""⟩,
      ⟨"auto_detect_merchants", .text ""⟩] }

/-- The registry of the sample ledger with a provider that does not answer. -/
def unanswered : Registry :=
  Transaction.registry ledger 1 vocabulary (some down) {}

/-- The sample ledger before any call. -/
def start : World :=
  { store := ledger }

/-- What the rule matches, pinned. -/
def pinnedMeals : Collection :=
  ⟨"transactions", 1, ["entries"], [.pinned [1, 3]]⟩

end Sample

/-- The provider does not answer for the second action: the merchants of the first action stay, and
for the third the provider is not asked. -/
theorem Rule.applyWith_breaks_off_suggested :
    Sample.suggested.validate Sample.unanswered = .ok () ∧
      ∃ before after,
        (Sample.suggested.performFirst Sample.unanswered false 1).run .none Sample.start =
          (.ok Sample.pinnedMeals, before) ∧
        (Sample.suggested.applyWith Sample.unanswered false).run .none Sample.start =
          (.error (.provider (.unavailable "timeout")), after) ∧
        after.store = before.store ∧
        Sample.suggested.HaltsAt Sample.unanswered false Sample.start 1 after ∧
        after.store.log.map (fun entry => (entry.record, entry.value)) =
          [(1, .text "m2"), (3, .text "m2")] ∧
        after.requests.map EnrichmentRequest.actionType = ["auto_categorize"] := by
  let before := ((Sample.suggested.performFirst Sample.unanswered false 1).run .none
    Sample.start).2
  have hfirst : ((Sample.suggested.performFirst Sample.unanswered false 1).run .none
      Sample.start).1 = .ok Sample.pinnedMeals := rfl
  have hfails : ((Sample.unanswered.execute ⟨"auto_categorize", .text ""⟩ Sample.pinnedMeals
      false).run .none before).1 = .error (.provider (.unavailable "timeout")) := rfl
  obtain ⟨hrun, hstore, hhalts⟩ :=
    (@Rule.applyWith_breaks_off Sample.suggested Sample.unanswered rfl false .none
      Sample.start).2.1 1 _ Sample.pinnedMeals before _ _ rfl (Prod.ext hfirst rfl)
      (Prod.ext hfails rfl)
  refine ⟨rfl, before, _, Prod.ext hfirst rfl, hrun, hstore, hhalts, ?_, ?_⟩
  · decide +kernel
  · decide +kernel

end Bookkeeping
