/-!
# Checks made one after another

A computation of several steps succeeds when each of them does, and otherwise ends with the
error of the first that does not. Where the wording of an error does not matter, two computations
are compared by their results.
-/

namespace Bookkeeping

variable {ε α β : Type}

/-- Two steps succeed when the first does, and then the second on its result. -/
theorem bind_eq_ok_iff {first : Except ε α} {next : α → Except ε β} {result : β} :
    (first >>= next) = .ok result ↔ ∃ middle, first = .ok middle ∧ next middle = .ok result := by
  cases first with
  | error cause => simp [bind, Except.bind]
  | ok middle => simp [bind, Except.bind]

/-- After a success comes the next step. -/
@[simp]
theorem ok_bind (middle : α) (next : α → Except ε β) : (Except.ok middle >>= next) = next middle :=
  rfl

/-- After a failure there is no next step. -/
@[simp]
theorem error_bind (cause : ε) (next : α → Except ε β) :
    (Except.error cause >>= next) = .error cause :=
  rfl

/-- A check that is refused ends the whole. -/
@[simp]
theorem throw_bind (cause : ε) (next : α → Except ε β) :
    ((throw cause : Except ε α) >>= next) = .error cause :=
  rfl

/-- A changed result is the change of a result. -/
theorem map_eq_ok_iff {first : Except ε α} {change : α → β} {result : β} :
    first.map change = .ok result ↔ ∃ middle, first = .ok middle ∧ change middle = result := by
  cases first <;> simp [Except.map]

/-- Changing the result leaves failures as they are. -/
theorem map_eq_error_iff {first : Except ε α} {change : α → β} {cause : ε} :
    first.map change = .error cause ↔ first = .error cause := by
  cases first <;> simp [Except.map]

/-- Steps for the members of a list succeed when each does. -/
theorem mapM_cons_eq_ok_iff {step : α → Except ε β} {head : α} {tail : List α}
    {results : List β} :
    (head :: tail).mapM step = .ok results ↔
      ∃ first others, step head = .ok first ∧ tail.mapM step = .ok others ∧
        first :: others = results := by
  simp only [List.mapM_cons, bind_eq_ok_iff, pure, Except.pure, Except.ok.injEq,
    exists_and_left]

/-- Steps that do the same for each member of a list do the same for the list. -/
theorem mapM_congr {step other : α → Except ε β} {list : List α}
    (h : ∀ member ∈ list, step member = other member) : list.mapM step = list.mapM other := by
  induction list with
  | nil => rfl
  | cons head tail ih =>
    obtain ⟨hhead, htail⟩ := List.forall_mem_cons.1 h
    rw [List.mapM_cons, List.mapM_cons, hhead, ih htail]

/-- The error of a check, if it has one. -/
def errorOf? : Except ε α → Option ε
  | .ok _ => none
  | .error cause => some cause

/-- A check without an error succeeds. -/
theorem errorOf?_eq_none_iff {check : Except ε α} :
    errorOf? check = none ↔ ∃ result, check = .ok result := by
  cases check <;> simp [errorOf?]

/-- The error of a check is the one it ends with. -/
theorem errorOf?_eq_some_iff {check : Except ε α} {cause : ε} :
    errorOf? check = some cause ↔ check = .error cause := by
  cases check <;> simp [errorOf?]

/-- Of two checks in a row the first error counts. -/
theorem errorOf?_bind {first : Except ε α} {next : α → Except ε β} {second : Option ε}
    (hnext : ∀ result, errorOf? (next result) = second) :
    errorOf? (first >>= next) = (errorOf? first).or second := by
  cases first with
  | error cause => rfl
  | ok result => exact hnext result

/-- A last step that cannot fail adds no error. -/
theorem errorOf?_bind_pure (first : Except ε α) (next : α → β) :
    errorOf? (first >>= fun result => pure (next result)) = errorOf? first := by
  cases first <;> rfl

/-- A change of the result changes no error. -/
theorem errorOf?_map (first : Except ε α) (change : α → β) :
    errorOf? (first.map change) = errorOf? first := by
  cases first <;> rfl

/-- Of steps for the members of a list the first error counts. -/
theorem errorOf?_mapM_cons {step : α → Except ε β} {head : α} {tail : List α} :
    errorOf? ((head :: tail).mapM step) =
      (errorOf? (step head)).or (errorOf? (tail.mapM step)) := by
  rw [List.mapM_cons]
  exact errorOf?_bind fun first => errorOf?_bind_pure ..

/-- Whatever error the check ends with is of this kind. -/
def FailsOnly (kind : ε → Prop) (check : Except ε α) : Prop :=
  ∀ cause, check = .error cause → kind cause

/-- A success fails for no cause at all. -/
theorem failsOnly_ok {kind : ε → Prop} (result : α) : FailsOnly kind (.ok result : Except ε α) := by
  rintro cause ⟨⟩

/-- Two steps fail for one kind of causes if both do. -/
theorem FailsOnly.bind {kind : ε → Prop} {first : Except ε α} {next : α → Except ε β}
    (hfirst : FailsOnly kind first) (hnext : ∀ middle, FailsOnly kind (next middle)) :
    FailsOnly kind (first >>= next) := by
  cases first with
  | error cause =>
    rintro _ ⟨⟩
    exact hfirst cause rfl
  | ok middle => exact hnext middle

/-- Two computations have the same result, or none, if their steps do. -/
theorem toOption_bind_congr {first other : Except ε α} {next otherNext : α → Except ε β}
    (hfirst : first.toOption = other.toOption)
    (hnext : ∀ middle, (next middle).toOption = (otherNext middle).toOption) :
    (first >>= next).toOption = (other >>= otherNext).toOption := by
  cases first with
  | error cause =>
    cases other with
    | error otherCause => rfl
    | ok middle => cases hfirst
  | ok middle =>
    cases other with
    | error cause => cases hfirst
    | ok otherMiddle =>
      obtain rfl := Option.some.inj hfirst
      exact hnext middle

/-- Of two computations with the same result, or none, one succeeds as the other does. -/
theorem eq_ok_iff_of_toOption_eq {first other : Except ε α} (h : first.toOption = other.toOption)
    {result : α} : first = .ok result ↔ other = .ok result := by
  have hsome (check : Except ε α) : check = .ok result ↔ check.toOption = some result := by
    cases check <;> simp [Except.toOption]
  rw [hsome, h, ← hsome]

end Bookkeeping
