import Bookkeeping.Proofs.Bind
import Bookkeeping.Proofs.RuleText.Grammar
import Mathlib.Data.List.TakeWhile

/-!
# What readers read

A reader reads a text when each of its steps does. A choice goes on to the next reader only when
the one before refuses the text and its refusal is not final; most readers never refuse finally, so
for them refusing is the same as not reading.
-/

namespace Bookkeeping.RuleText.Reader

variable {α β : Type} {reader first second : Reader α} {text rest : List Char} {found : α}

/-- Two steps read when the first does, and then the second on what is left. -/
@[simp]
theorem steps_eq_ok_iff {next : α → Reader β} {result : β × List Char} :
    (reader >>= next) text = .ok result ↔
      ∃ middle between, reader text = .ok (middle, between) ∧ next middle between = .ok result := by
  change ((reader text) >>= fun step => next step.1 step.2) = .ok result ↔ _
  rw [bind_eq_ok_iff, Prod.exists]

/-- Where the first step is the same, everything is. -/
theorem steps_congr {next : α → Reader β} {other : List Char} (h : reader text = reader other) :
    (reader >>= next) text = (reader >>= next) other := by
  change ((reader text) >>= fun step => next step.1 step.2) =
    ((reader other) >>= fun step => next step.1 step.2)
  rw [h]

/-- Returning reads nothing. -/
@[simp]
theorem pure_eq_ok_iff {returned : α} {result : α × List Char} :
    (pure returned : Reader α) text = .ok result ↔ (returned, text) = result := by
  change (.ok (returned, text) : Except Refusal (α × List Char)) = _ ↔ _
  rw [Except.ok.injEq]

/-- Labels change refusals only. -/
@[simp]
theorem labelled_eq_ok_iff {label : String} {result : α × List Char} :
    labelled label reader text = .ok result ↔ reader text = .ok result := by
  unfold labelled
  cases reader text <;> simp

/-- A required thing is read as one that is not. -/
@[simp]
theorem required_eq_ok_iff {result : α × List Char} :
    required reader text = .ok result ↔ reader text = .ok result := by
  unfold required
  cases reader text <;> simp

/-- The reader does not read the text, and another may be tried. -/
def Refuses (reader : Reader α) (text : List Char) : Prop :=
  ∃ refusal, reader text = .error refusal ∧ refusal.final = false

/-- What is read first is not refused. -/
theorem Refuses.bind {next : α → Reader β} (h : Refuses reader text) :
    Refuses (reader >>= next) text := by
  obtain ⟨refusal, hrefusal, hfinal⟩ := h
  refine ⟨refusal, ?_, hfinal⟩
  change ((reader text) >>= fun step => next step.1 step.2) = _
  rw [hrefusal, error_bind]

/-- A refusal of the second step is a refusal of both. -/
theorem refuses_bind_of_ok {next : α → Reader β} (h : reader text = .ok (found, rest))
    (hnext : Refuses (next found) rest) : Refuses (reader >>= next) text := by
  obtain ⟨refusal, hrefusal, hfinal⟩ := hnext
  refine ⟨refusal, ?_, hfinal⟩
  change ((reader text) >>= fun step => next step.1 step.2) = _
  rw [h, ok_bind, hrefusal]

/-- A choice of two reads by the second reader what the first refuses. -/
theorem orElse_eq_ok_iff {result : α × List Char} :
    orElse first second text = .ok result ↔
      first text = .ok result ∨ Refuses first text ∧ second text = .ok result := by
  unfold orElse Refuses
  cases hfirst : first text with
  | ok found => simp
  | error refusal => cases hfinal : refusal.final <;> simp [hfinal]

/-- A choice of one reader is that reader. -/
theorem choice_singleton (reader : Reader α) : choice [reader] = reader :=
  rfl

/-- A choice reads by its first reader, or by the others what the first refuses. -/
theorem choice_cons_eq_ok_iff {others : List (Reader α)} {result : α × List Char} :
    choice (first :: second :: others) text = .ok result ↔
      first text = .ok result ∨
        Refuses first text ∧ choice (second :: others) text = .ok result :=
  orElse_eq_ok_iff

/-- A choice reads what its first reader reads. -/
theorem choice_eq_ok {others : List (Reader α)} {result : α × List Char}
    (h : first text = .ok result) : choice (first :: others) text = .ok result := by
  cases others with
  | nil => exact h
  | cons second others => exact choice_cons_eq_ok_iff.2 (.inl h)

/-- A choice reads by its other readers what its first one refuses. -/
theorem Refuses.choice_eq_ok {others : List (Reader α)} {result : α × List Char}
    (h : Refuses first text) (hothers : choice (second :: others) text = .ok result) :
    choice (first :: second :: others) text = .ok result :=
  choice_cons_eq_ok_iff.2 (.inr ⟨h, hothers⟩)

/-- An option is what its reader reads, and nothing where it refuses. -/
theorem option_eq_ok_iff {result : Option α × List Char} :
    option reader text = .ok result ↔
      (∃ found rest, reader text = .ok (found, rest) ∧ (some found, rest) = result) ∨
        Refuses reader text ∧ (none, text) = result := by
  unfold option Refuses
  cases hreader : reader text with
  | ok step =>
    obtain ⟨found, rest⟩ := step
    simp
  | error refusal => cases hfinal : refusal.final <;> simp [hfinal]

/-- The reader never refuses finally. -/
def Mild (reader : Reader α) : Prop :=
  ∀ text refusal, reader text = .error refusal → refusal.final = false

/-- A reader that never refuses finally refuses what it does not read. -/
theorem Mild.refuses (h : Mild reader) (hnot : ∀ result, reader text ≠ .ok result) :
    Refuses reader text := by
  cases hreader : reader text with
  | ok result => exact absurd hreader (hnot result)
  | error refusal => exact ⟨refusal, hreader, h text refusal hreader⟩

/-- Returning refuses nothing. -/
theorem mild_pure (returned : α) : Mild (pure returned : Reader α) := by
  intro text refusal h
  cases h

/-- Two steps refuse finally only if one of them does. -/
theorem Mild.bind {next : α → Reader β} (h : Mild reader) (hnext : ∀ found, Mild (next found)) :
    Mild (reader >>= next) := by
  intro text refusal hrefusal
  change ((reader text) >>= fun step => next step.1 step.2) = _ at hrefusal
  cases hreader : reader text with
  | ok step =>
    rw [hreader, ok_bind] at hrefusal
    exact hnext step.1 step.2 refusal hrefusal
  | error cause =>
    rw [hreader, error_bind] at hrefusal
    exact Except.error.inj hrefusal ▸ h text cause hreader

/-- An option refuses finally only if its reader does. -/
theorem Mild.option (h : Mild reader) : Mild (option reader) := by
  intro text refusal hrefusal
  unfold Reader.option at hrefusal
  split at hrefusal
  · cases hrefusal
  · rename_i cause hreader
    rw [if_neg (by simp [h text cause hreader])] at hrefusal
    cases hrefusal

/-- A choice of two refuses finally only if one of them does. -/
theorem Mild.orElse (hfirst : Mild first) (hsecond : Mild second) : Mild (orElse first second) := by
  intro text refusal hrefusal
  unfold Reader.orElse at hrefusal
  split at hrefusal
  · cases hrefusal
  · rename_i cause hcause
    rw [if_neg (by simp [hfirst text cause hcause])] at hrefusal
    exact hsecond text refusal hrefusal

/-- The refusal of a character is not final. -/
theorem mild_char (c : Char) : Mild (char c) := by
  intro text refusal h
  cases text with
  | nil =>
    obtain rfl := Except.error.inj h
    rfl
  | cons d rest =>
    rw [char] at h
    split at h
    · cases h
    · obtain rfl := Except.error.inj h
      rfl

/-- The refusal of a word is not final. -/
theorem mild_word (expected : String) : Mild (word expected) := by
  intro text refusal h
  unfold word at h
  split at h
  · cases h
  · obtain rfl := Except.error.inj h
    rfl

/-- The refusal of a run is not final. -/
theorem mild_run (belongs : Char → Bool) : Mild (run belongs) := by
  intro text refusal h
  unfold run at h
  dsimp only at h
  split at h
  · obtain rfl := Except.error.inj h
    rfl
  · cases h

/-- The refusal of digits is not final. -/
theorem mild_digits (count : Nat) : Mild (digits count) := by
  intro text refusal h
  unfold digits at h
  dsimp only at h
  split at h
  · cases h
  · obtain rfl := Except.error.inj h
    rfl

section Characters

/-- A character is read where it comes first. -/
@[simp]
theorem char_eq_ok_iff {c : Char} {result : Unit × List Char} :
    char c text = .ok result ↔ text = c :: result.2 := by
  cases text with
  | nil => simp [char]
  | cons d rest =>
    rw [char]
    split
    · rename_i h
      simp [h, Prod.ext_iff]
    · rename_i h
      simp [h]

/-- The text after a word is what follows it. -/
theorem afterWord?_eq_some_iff {word : List Char} :
    afterWord? word text = some rest ↔ text = word ++ rest := by
  fun_induction afterWord? word text with
  | case1 text => simp
  | case2 c word => simp
  | case3 c word text ih => simp [ih]
  | case4 c word d text h => simp [h]

/-- A word is read where the text starts with it. -/
@[simp]
theorem word_eq_ok_iff {expected : String} {result : Unit × List Char} :
    word expected text = .ok result ↔ text = expected.toList ++ result.2 := by
  rw [← afterWord?_eq_some_iff, word]
  cases afterWord? expected.toList text with
  | none => simp
  | some rest => simp [Prod.ext_iff]

/-- A word is refused where the text does not start with it. -/
theorem refuses_word {expected : String} (h : ∀ rest, text ≠ expected.toList ++ rest) :
    Refuses (word expected) text :=
  (mild_word expected).refuses fun result hread => h result.2 (word_eq_ok_iff.1 hread)

/-- The characters of a class that a text starts with, where no more of them follow. -/
theorem takeWhile_append {belongs : Char → Bool} {front : List Char}
    (hfront : ∀ c ∈ front, belongs c = true) (hrest : ∀ c ∈ rest.head?, belongs c = false) :
    (front ++ rest).takeWhile belongs = front ∧ (front ++ rest).dropWhile belongs = rest := by
  have hnone : rest.takeWhile belongs = [] ∧ rest.dropWhile belongs = rest := by
    cases rest with
    | nil => simp
    | cons c rest => simp [hrest c rfl]
  rw [List.takeWhile_append_of_pos hfront, List.dropWhile_append_of_pos hfront]
  simp [hnone]

/-- The characters of a class that a text starts with, and what follows them. -/
theorem takeWhile_spec (belongs : Char → Bool) (text : List Char) :
    (∀ c ∈ text.takeWhile belongs, belongs c = true) ∧
      (∀ c ∈ (text.dropWhile belongs).head?, belongs c = false) ∧
        text.takeWhile belongs ++ text.dropWhile belongs = text := by
  refine ⟨fun c hc => List.mem_takeWhile_imp hc, fun c hc => ?_, List.takeWhile_append_dropWhile⟩
  have h := List.head?_dropWhile_not belongs text
  rw [Option.mem_def.1 hc] at h
  exact h

end Characters

section Forms

/-- The reader reads only what the form allows. -/
def Sound (reader : Reader α) (form : Form α) : Prop :=
  ∀ text rest found, reader text = .ok (found, rest) → form text rest found

/-- In texts shorter than a bound the reader reads what the form allows, where the rest ends it. -/
def Complete (bound : Nat) (reader : Reader α) (form : Form α) (ends : List Char → Prop) : Prop :=
  ∀ text rest found, text.length < bound → form text rest found → ends rest →
    reader text = .ok (found, rest)

/-- The form takes something from every text shorter than a bound. -/
def Shrinks (bound : Nat) (form : Form α) : Prop :=
  ∀ text rest found, text.length < bound → form text rest found → rest.length < text.length

variable {form : Form α} {bound : Nat} {ends : List Char → Prop}

/-- What is read up to some ends is read up to fewer of them. -/
theorem Complete.mono {others : List Char → Prop} (h : Complete bound reader form ends)
    (hends : ∀ rest, others rest → ends rest) : Complete bound reader form others :=
  fun text rest found hbound hfound hothers =>
    h text rest found hbound hfound (hends rest hothers)

/-- What a repetition reads is read by its reader again and again. -/
theorem Sound.many (h : Sound reader form) : Sound (many reader) (Repeated form) := by
  intro text
  induction text using many.induct reader with
  | case1 text refusal hrefusal hfinal =>
    intro rest found hread
    rw [Reader.many, hrefusal] at hread
    simp [hfinal] at hread
  | case2 text refusal hrefusal hfinal =>
    intro rest found hread
    rw [Reader.many, hrefusal] at hread
    obtain ⟨rfl, rfl⟩ : [] = found ∧ text = rest := by simpa [hfinal] using hread
    exact .nil text
  | case3 text first between hfirst hlt ih =>
    intro rest found hread
    rw [Reader.many, hfirst] at hread
    simp only [hlt, if_true] at hread
    obtain ⟨step, hothers, hstep⟩ := map_eq_ok_iff.1 hread
    obtain ⟨rfl, rfl⟩ := Prod.mk.inj hstep
    exact .cons (h _ _ _ hfirst) (ih _ _ hothers)
  | case4 text first between hfirst hnot =>
    intro rest found hread
    rw [Reader.many, hfirst] at hread
    simp [hnot] at hread

/-- A repetition reads everything up to where its reader refuses. -/
theorem Complete.many (h : Complete bound reader form ends) (hshrinks : Shrinks bound form)
    (hstarts : ∀ text rest found, form text rest found → ends text) :
    Complete bound (many reader) (Repeated form) fun rest => ends rest ∧ Refuses reader rest := by
  intro text rest found hbound hrepeated hends
  induction hrepeated with
  | nil rest =>
    obtain ⟨-, refusal, hrefusal, hfinal⟩ := hends
    rw [Reader.many, hrefusal]
    simp [hfinal]
  | @cons text between rest first others hfirst hothers ih =>
    have hlt := hshrinks _ _ _ hbound hfirst
    have hbetween : ends between := by
      cases hothers with
      | nil => exact hends.1
      | cons hnext _ => exact hstarts _ _ _ hnext
    rw [Reader.many, h _ _ _ hbound hfirst hbetween]
    simp only [hlt, if_true, ih (hlt.trans hbound) hends]
    rfl

/-- Things taken one after another leave no more of the text than there was. -/
theorem Shrinks.repeated (h : Shrinks bound form) {found : List α} (hbound : text.length < bound)
    (hrepeated : Repeated form text rest found) : rest.length ≤ text.length := by
  induction hrepeated with
  | nil rest => exact Nat.le_refl _
  | cons hfirst hothers ih =>
    have hlt := h _ _ _ hbound hfirst
    exact (ih (hlt.trans hbound)).trans hlt.le

end Forms

end Bookkeeping.RuleText.Reader
