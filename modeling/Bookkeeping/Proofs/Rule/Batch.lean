import Bookkeeping.Proofs.Rule.Interruption

/-!
# Batches of rules

A batch is its active rules applied one after another, each in the world that the one before has
left. A batch that passes over failures comes to the end with one entry for each rule; a batch that
does not is the same one up to the first failure, and ends there.
-/

namespace Bookkeeping

/-- A rule of a batch with what applying it has come to. -/
abbrev Attempt := Rule × Except Failure Report

namespace Attempt

/-- The rule has been applied to its end. -/
def Succeeded (attempt : Attempt) : Prop :=
  ∃ report, attempt.2 = .ok report

/-- The reports of the rules that were applied to their end, in order. -/
def reports (attempts : List Attempt) : List Report :=
  attempts.filterMap fun attempt => attempt.2.toOption

/-- The rules that failed, in order. -/
def failures (attempts : List Attempt) : List SkippedRule :=
  attempts.filterMap fun attempt =>
    (errorOf? attempt.2).map fun cause => ⟨attempt.1.displayName, cause⟩

variable {attempts : List Attempt}

/-- Every rule is applied to its end or fails. -/
theorem length_reports_add_length_failures :
    (reports attempts).length + (failures attempts).length = attempts.length := by
  induction attempts with
  | nil => rfl
  | cons attempt rest ih =>
    obtain ⟨rule, result⟩ := attempt
    cases result with
    | ok report =>
      have hreports : reports ((rule, .ok report) :: rest) = report :: reports rest := rfl
      have hfailures : failures ((rule, .ok report) :: rest) = failures rest := rfl
      rw [hreports, hfailures, List.length_cons, List.length_cons]
      omega
    | error cause =>
      have hreports : reports ((rule, .error cause) :: rest) = reports rest := rfl
      have hfailures : failures ((rule, .error cause) :: rest) =
          ⟨rule.displayName, cause⟩ :: failures rest := rfl
      rw [hreports, hfailures, List.length_cons, List.length_cons]
      omega

private theorem failures_eq_nil_iff :
    failures attempts = [] ↔ ∀ attempt ∈ attempts, attempt.Succeeded := by
  simp only [failures, List.filterMap_eq_nil_iff, Option.map_eq_none_iff, errorOf?_eq_none_iff,
    Succeeded]

end Attempt

namespace Registry

/-- Rules applied one after another, each in the world that the one before has left, whether that
one came to its end or not. -/
def applyEach (registry : Registry) (outage : Outage) : List Rule → World → List Attempt × World
  | [], world => ([], world)
  | rule :: rest, world =>
    let (result, after) := (rule.apply registry).run outage world
    let (others, last) := registry.applyEach outage rest after
    ((rule, result) :: others, last)

/-- The registry with batches passing over failures, or not. -/
def skipping (registry : Registry) (skip : Bool) : Registry :=
  { registry with settings := { registry.settings with skipFailed := skip } }

section Skipping

variable {registry : Registry} {skip : Bool}

private theorem checkActions_skipping (rule : Rule) (seen : List String) (actions : List Action) :
    rule.checkActions (registry.skipping skip) seen actions =
      rule.checkActions registry seen actions := by
  induction actions generalizing seen with
  | nil => rfl
  | cons action rest ih =>
    rw [Rule.checkActions, Rule.checkActions]
    exact bind_congr fun _ => ih _

private theorem executeAll_skipping (collection : Collection) (ignoreLocks : Bool)
    (actions : List Action) :
    (registry.skipping skip).executeAll collection ignoreLocks actions =
      registry.executeAll collection ignoreLocks actions := by
  induction actions with
  | nil => rfl
  | cons action rest ih =>
    rw [executeAll, executeAll, ih]
    rfl

/-- How a batch deals with failures makes no difference to a single rule. -/
theorem apply_skipping (rule : Rule) :
    rule.apply (registry.skipping skip) = rule.apply registry := by
  have hvalidate : rule.validate (registry.skipping skip) = rule.validate registry := by
    simp only [Rule.validate, checkActions_skipping]
    rfl
  have hmatching : rule.matching (registry.skipping skip) = rule.matching registry := rfl
  simp only [Rule.apply, Rule.applyWith, hvalidate, hmatching, executeAll_skipping]

private theorem applyEach_skipping (outage : Outage) (rules : List Rule) (world : World) :
    (registry.skipping skip).applyEach outage rules world =
      registry.applyEach outage rules world := by
  induction rules generalizing world with
  | nil => rfl
  | cons rule rest ih => simp only [applyEach, apply_skipping, ih]

end Skipping

variable {registry : Registry} {outage : Outage}

/-- Each rule is attempted once. -/
theorem length_applyEach (rules : List Rule) (world : World) :
    (registry.applyEach outage rules world).1.length = rules.length := by
  induction rules generalizing world with
  | nil => rfl
  | cons rule rest ih => simp [applyEach, ih]

/-- A batch that passes over failures, or has none so far, adds the attempts to what it has come to
and goes on. -/
theorem applyRest_append {first : List Rule} {world : World}
    (hgoes : registry.settings.skipFailed = true ∨
      ∀ attempt ∈ (registry.applyEach outage (first.filter (·.active)) world).1, attempt.Succeeded)
    (batch : BatchReport) (second : List Rule) :
    registry.applyRest outage batch (first ++ second) world =
      let (attempts, last) := registry.applyEach outage (first.filter (·.active)) world
      registry.applyRest outage ⟨batch.applied ++ Attempt.reports attempts,
        batch.skipped ++ Attempt.failures attempts,
        batch.inactive + first.countP (!·.active)⟩ second last := by
  -- what the batch has come to is generalized: each rule adds to it before the rest is applied
  induction first generalizing batch world with
  | nil => simp [applyEach, Attempt.reports, Attempt.failures]
  | cons rule rest ih =>
    cases hactive : rule.active with
    | false =>
      simp only [List.filter_cons, hactive, Bool.false_eq_true, if_false] at hgoes
      simp only [List.cons_append, applyRest, hactive, Bool.false_eq_true, if_false, ih hgoes,
        List.filter_cons, List.countP_cons, Bool.not_false, if_true]
      rw [Nat.add_assoc, Nat.add_comm 1]
    | true =>
      simp only [List.filter_cons, hactive, if_true, applyEach, List.forall_mem_cons] at hgoes
      simp only [List.cons_append, applyRest, hactive, if_true, List.filter_cons, applyEach,
        List.countP_cons, Bool.not_true, Bool.false_eq_true, if_false, Nat.add_zero]
      cases hrun : (rule.apply registry).run outage world with
      | mk result after =>
        rw [hrun] at hgoes
        have hrest := hgoes.imp_right And.right
        cases result with
        | ok report =>
          simp only [ih hrest, Attempt.reports, Attempt.failures, List.filterMap_cons,
            Except.toOption, errorOf?, Option.map_none, List.append_assoc, List.singleton_append]
        | error cause =>
          -- there is a failure, so the batch goes on only as it passes over it
          have hskip : registry.settings.skipFailed = true := by
            refine hgoes.resolve_right ?_
            rintro ⟨⟨report, hreport⟩, -⟩
            cases hreport
          simp only [hskip, if_true, ih hrest, Attempt.reports, Attempt.failures,
            List.filterMap_cons, Except.toOption, errorOf?, Option.map_some, List.append_assoc,
            List.singleton_append]

/-- A batch that passes over failures, or has none, is its active rules applied one after
another. -/
theorem applyAll_eq_applyEach {rules : List Rule} {world : World}
    (hgoes : registry.settings.skipFailed = true ∨
      ∀ attempt ∈ (registry.applyEach outage (rules.filter (·.active)) world).1,
        attempt.Succeeded) :
    registry.applyAll outage rules world =
      let (attempts, last) := registry.applyEach outage (rules.filter (·.active)) world
      (.ok ⟨Attempt.reports attempts, Attempt.failures attempts, rules.countP (!·.active)⟩,
        last) := by
  have hrest := applyRest_append hgoes {} []
  rw [List.append_nil] at hrest
  simpa only [applyAll, applyRest, List.nil_append, Nat.zero_add] using hrest

/-- Where some rule fails, one of them is the first to fail. -/
theorem exists_first_failure {rules : List Rule} {world : World}
    (h : ¬∀ attempt ∈ (registry.applyEach outage rules world).1, attempt.Succeeded) :
    ∃ earlier rule later cause after, rules = earlier ++ rule :: later ∧
      (∀ attempt ∈ (registry.applyEach outage earlier world).1, attempt.Succeeded) ∧
      (rule.apply registry).run outage (registry.applyEach outage earlier world).2 =
        (.error cause, after) := by
  induction rules generalizing world with
  | nil => exact absurd (fun _ hmem => absurd hmem List.not_mem_nil) h
  | cons rule rest ih =>
    cases hrun : (rule.apply registry).run outage world with
    | mk result middle =>
      cases result with
      | error cause =>
        exact ⟨[], rule, rest, cause, middle, rfl, fun _ hmem => absurd hmem List.not_mem_nil, hrun⟩
      | ok report =>
        have hfirst : Attempt.Succeeded (rule, .ok report) := ⟨report, rfl⟩
        rw [applyEach, hrun, List.forall_mem_cons] at h
        obtain ⟨earlier, failing, later, cause, after, rfl, hearlier, hfails⟩ :=
          ih fun hrest => h ⟨hfirst, hrest⟩
        refine ⟨rule :: earlier, failing, later, cause, after, rfl, ?_, ?_⟩
        · rw [applyEach, hrun, List.forall_mem_cons]
          exact ⟨hfirst, hearlier⟩
        · rw [applyEach, hrun]
          exact hfails

/-- A batch that does not pass over failures ends with the first of them. -/
theorem applyRest_eq_error (hskip : registry.settings.skipFailed = false)
    {rules earlier later : List Rule} {rule : Rule} {world after : World} {cause : Failure}
    (hactive : rules.filter (·.active) = earlier ++ rule :: later)
    (hok : ∀ attempt ∈ (registry.applyEach outage earlier world).1, attempt.Succeeded)
    (hfails : (rule.apply registry).run outage (registry.applyEach outage earlier world).2 =
      (.error cause, after)) (batch : BatchReport) :
    registry.applyRest outage batch rules world = (.error cause, after) := by
  obtain ⟨front, back, rfl, rfl, hback⟩ := List.filter_eq_append_iff.1 hactive
  obtain ⟨inactive, rest, rfl, hinactive, hrule, -⟩ := List.filter_eq_cons_iff.1 hback
  -- the rule may follow some that are not active, and these go with the rules before it
  have hfront : (front ++ inactive).filter (·.active) = front.filter (·.active) := by
    rw [List.filter_append, List.filter_eq_nil_iff.2 hinactive, List.append_nil]
  rw [← hfront] at hok hfails
  rw [← List.append_assoc, applyRest_append (.inr hok)]
  simp only [applyRest, hrule, if_true, hfails, hskip, Bool.false_eq_true, if_false]

/-- **Batches.** A batch that passes over failures comes to an end, in the world that applying each
of its active rules leaves, with the reports of those that succeed and the causes of those that
fail; every rule is in one of these lists or is not active. A batch that does not pass over failures
comes to the same if no rule fails, and otherwise ends as the first one that fails. A rule that
fails has been applied up to one of its actions, or not at all. -/
theorem applyAll_applies_each (registry : Registry) (outage : Outage) (rules : List Rule)
    (world : World) :
    let active := rules.filter (·.active)
    let each := registry.applyEach outage active world
    let batch : BatchReport :=
      ⟨Attempt.reports each.1, Attempt.failures each.1, rules.countP (!·.active)⟩
    (registry.skipping true).applyAll outage rules world = (.ok batch, each.2) ∧
    batch.applied.length + batch.skipped.length + batch.inactive = rules.length ∧
    ((∀ attempt ∈ each.1, attempt.Succeeded) →
      (registry.skipping false).applyAll outage rules world = (.ok batch, each.2)) ∧
    ((¬∀ attempt ∈ each.1, attempt.Succeeded) →
      ∃ earlier rule later cause after, active = earlier ++ rule :: later ∧
        (∀ attempt ∈ (registry.applyEach outage earlier world).1, attempt.Succeeded) ∧
        (rule.apply registry).run outage (registry.applyEach outage earlier world).2 =
          (.error cause, after) ∧
        (registry.skipping false).applyAll outage rules world = (.error cause, after)) ∧
    ∀ rule ∈ active, ∀ before cause after,
      (rule.apply registry).run outage before = (.error cause, after) →
        after.store = before.store ∨ ∃ k, rule.HaltsAt registry false before k after := by
  intro active each batch
  refine ⟨?_, ?_, fun hok => ?_, fun hfails => ?_, fun rule _ before cause after => ?_⟩
  · rw [applyAll_eq_applyEach (.inl rfl), applyEach_skipping]
  · calc
      batch.applied.length + batch.skipped.length + batch.inactive
          = active.length + rules.countP (!·.active) := by
        rw [Attempt.length_reports_add_length_failures, length_applyEach]
      _ = rules.length := by
        rw [← List.countP_eq_length_filter, List.length_eq_countP_add_countP (·.active)]
        simp only [Bool.not_eq_true, Bool.decide_eq_false]
  · rw [applyAll_eq_applyEach (.inr (by rwa [applyEach_skipping])), applyEach_skipping]
  · obtain ⟨earlier, rule, later, cause, after, hactive, hearlier, hrun⟩ :=
      exists_first_failure hfails
    refine ⟨earlier, rule, later, cause, after, hactive, hearlier, hrun, ?_⟩
    refine applyRest_eq_error rfl hactive ?_ ?_ {}
    · rwa [applyEach_skipping]
    · rwa [apply_skipping, applyEach_skipping]
  · exact Rule.haltsAt_of_applyWith_eq_error

end Registry

namespace Sample

/-- Meals with and without suggestions, and once not active. -/
def batch : List Rule :=
  [meals, meals.inactive, suggested, meals]

end Sample

/-- The provider does not answer for the third rule: its first action stays, so the last rule
matches one record less than the first. The first two rules come to the same either way, and a
batch that does not pass over failures ends with the third. -/
theorem Registry.applyAll_applies_each_batch :
    (∃ batch last,
      (Sample.unanswered.skipping true).applyAll .none Sample.batch Sample.start =
        (.ok batch, last) ∧
      batch.applied.map Report.matched = [2, 1] ∧
      batch.skipped.map SkippedRule.cause = [.provider (.unavailable "timeout")] ∧
      batch.inactive = 1) ∧
    (Sample.unanswered.skipping false).applyAll .none (Sample.batch.take 2) Sample.start =
      (Sample.unanswered.skipping true).applyAll .none (Sample.batch.take 2) Sample.start ∧
    ∃ rule before cause after, rule ∈ Sample.batch ∧
      (rule.apply Sample.unanswered).run .none before = (.error cause, after) ∧
      (Sample.unanswered.skipping false).applyAll .none Sample.batch Sample.start =
        (.error cause, after) ∧
      (after.store = before.store ∨
        ∃ k, rule.HaltsAt Sample.unanswered false before k after) := by
  obtain ⟨hrun, -, -, hfails, hhalts⟩ :=
    Registry.applyAll_applies_each Sample.unanswered .none Sample.batch Sample.start
  have hcauses : (Attempt.failures (Sample.unanswered.applyEach .none
      (Sample.batch.filter (·.active)) Sample.start).1).map SkippedRule.cause =
      [.provider (.unavailable "timeout")] := by decide +kernel
  refine ⟨⟨_, _, hrun, ?_, hcauses, ?_⟩, ?_, ?_⟩
  · decide +kernel
  · decide +kernel
  · obtain ⟨hon, -, hoff, -⟩ :=
      Registry.applyAll_applies_each Sample.unanswered .none (Sample.batch.take 2) Sample.start
    have hcalm : (Attempt.failures (Sample.unanswered.applyEach .none
        ((Sample.batch.take 2).filter (·.active)) Sample.start).1).map
          SkippedRule.cause = [] := by decide +kernel
    rw [hon, hoff (Attempt.failures_eq_nil_iff.1 (List.map_eq_nil_iff.1 hcalm))]
  · obtain ⟨earlier, rule, later, cause, after, hactive, -, hrule, hoff⟩ := hfails <| by
      intro h
      rw [Attempt.failures_eq_nil_iff.2 h] at hcauses
      cases hcauses
    have hmem : rule ∈ Sample.batch.filter (·.active) := hactive ▸ by simp
    exact ⟨rule, _, cause, after, (List.mem_filter.1 hmem).1, hrule, hoff,
      hhalts rule hmem _ _ _ hrule⟩

end Bookkeeping
