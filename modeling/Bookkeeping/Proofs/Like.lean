import Bookkeeping.Like
import Mathlib.Data.List.Infix

/-!
# What a pattern matches

A pattern fits a text that can be cut into what its elements stand for. Matching keeps only the
last run it has passed, which loses nothing: since that run each element took exactly one
character, so any text an earlier, longer run could still reach is reached from the last one too.
-/

namespace Bookkeeping.Like

open Bookkeeping.Text

/-- The text is what the elements stand for, one after another. -/
inductive Fits : List Element → List Char → Prop where
  | done : Fits [] []
  | char {c : Char} {pattern : List Element} {text : List Char} :
    Fits pattern text → Fits (.char c :: pattern) (c :: text)
  | anyOne {c : Char} {pattern : List Element} {text : List Char} :
    Fits pattern text → Fits (.anyOne :: pattern) (c :: text)
  | anyRun (run : List Char) {pattern : List Element} {text : List Char} :
    Fits pattern text → Fits (.anyRun :: pattern) (run ++ text)

/-- Only runs fit the empty text. -/
theorem fits_nil_iff (pattern : List Element) :
    Fits pattern [] ↔ ∀ element ∈ pattern, element = .anyRun := by
  induction pattern with
  | nil => simpa using Fits.done
  | cons element rest ih =>
    constructor
    · intro h
      generalize htext : ([] : List Char) = text at h
      cases h with
      | char _ => cases htext
      | anyOne _ => cases htext
      | anyRun run h =>
        obtain ⟨rfl, rfl⟩ := List.append_eq_nil_iff.1 htext.symm
        simpa using ih.1 h
    · intro h
      obtain rfl : element = .anyRun := h element (by simp)
      exact .anyRun [] (ih.2 fun other hother => h other (by simp [hother]))

/-- A run at the head may take any number of characters. -/
theorem fits_anyRun_iff (pattern : List Element) (text : List Char) (place : Nat) :
    Fits (.anyRun :: pattern) (text.drop place) ↔
      ∃ later, place ≤ later ∧ Fits pattern (text.drop later) := by
  constructor
  · intro h
    generalize htext : text.drop place = rest at h
    cases h with
    | anyRun run h =>
      refine ⟨place + run.length, by omega, ?_⟩
      rw [← List.drop_drop, htext]
      simpa using h
  · rintro ⟨later, hle, h⟩
    have hsplit : text.drop place =
        (text.drop place).take (later - place) ++ text.drop later := by
      conv_lhs => rw [← List.take_append_drop (later - place) (text.drop place)]
      rw [List.drop_drop, Nat.add_sub_cancel' hle]
    rw [hsplit]
    exact .anyRun _ h

/-- Literal characters at the head take themselves. -/
theorem fits_literal_append_iff (literal : List Char) (pattern : List Element)
    (text : List Char) :
    Fits (literal.map .char ++ pattern) text ↔
      ∃ rest, text = literal ++ rest ∧ Fits pattern rest := by
  induction literal generalizing text with
  | nil => simp
  | cons c literal ih =>
    constructor
    · intro h
      cases h with
      | char h =>
        obtain ⟨rest, rfl, hrest⟩ := (ih _).1 h
        exact ⟨rest, rfl, hrest⟩
    · rintro ⟨rest, rfl, hrest⟩
      exact .char ((ih _).2 ⟨rest, rfl, hrest⟩)

/-- Elements that are no runs take one character each. -/
theorem Fits.drop_single {pattern : List Element} {text : List Char} {low high place : Nat}
    (h : Fits (pattern.drop low) (text.drop place)) (hle : low ≤ high)
    (hsingle : ∀ i, low ≤ i → i < high → pattern[i]? ≠ some .anyRun) :
    Fits (pattern.drop high) (text.drop (place + (high - low))) := by
  induction high, hle using Nat.le_induction with
  | base => simpa using h
  | succ high hle ih =>
    have hfits := ih fun i hi hlt => hsingle i hi (by omega)
    have hplace : place + (high + 1 - low) = place + (high - low) + 1 := by omega
    rw [hplace, ← List.tail_drop, ← List.tail_drop]
    have hhead := hsingle high hle (Nat.lt_succ_self high)
    rw [← List.head?_drop] at hhead
    generalize pattern.drop high = left at hfits hhead
    generalize text.drop (place + (high - low)) = right at hfits
    cases hfits with
    | done => exact .done
    | char h => exact h
    | anyOne h => exact h
    | anyRun run h => simp at hhead

namespace Cursor

/-- Since the run at the mark each element took one character, and none of them is a run. -/
def Aligned (pattern : List Element) (cursor : Cursor) : Prop :=
  ∀ mark ∈ cursor.mark, pattern[mark.run]? = some .anyRun ∧
    cursor.place + (mark.run + 1) = cursor.element + mark.start ∧
    ∀ i, mark.run < i → i < cursor.element → pattern[i]? ≠ some .anyRun

/-- The pattern can still fit, from the cursor on or with a longer run at the mark. -/
def Viable (pattern : List Element) (text : List Char) (cursor : Cursor) : Prop :=
  Fits (pattern.drop cursor.element) (text.drop cursor.place) ∨
    ∃ mark ∈ cursor.mark, ∃ place, mark.start < place ∧
      Fits (pattern.drop (mark.run + 1)) (text.drop place)

private theorem first_aligned (pattern : List Element) : first.Aligned pattern := by
  simp [Aligned, first]

private theorem viable_first_iff (pattern : List Element) (text : List Char) :
    first.Viable pattern text ↔ Fits pattern text := by
  simp [Viable, first]

variable {pattern : List Element} {text : List Char} {cursor : Cursor}

/-- A longer run at the mark takes the cursor's element to a later place. -/
theorem Aligned.fits_later (haligned : cursor.Aligned pattern) (hordered : cursor.Ordered)
    {mark : Mark} (hmark : mark ∈ cursor.mark) {place : Nat} (hplace : mark.start < place)
    (h : Fits (pattern.drop (mark.run + 1)) (text.drop place)) :
    ∃ later, cursor.place < later ∧ Fits (pattern.drop cursor.element) (text.drop later) := by
  obtain ⟨-, hdistance, hsingle⟩ := haligned mark hmark
  obtain ⟨hrun, -⟩ := hordered mark hmark
  exact ⟨place + (cursor.element - (mark.run + 1)), by omega, h.drop_single hrun hsingle⟩

/-- With the text used up, a longer run at the mark gains nothing. -/
theorem Aligned.viable_at_end_iff (haligned : cursor.Aligned pattern)
    (hordered : cursor.Ordered) (hend : text.length ≤ cursor.place) :
    cursor.Viable pattern text ↔ ∀ element ∈ pattern.drop cursor.element, element = .anyRun := by
  rw [← fits_nil_iff, Viable, List.drop_eq_nil_of_le hend]
  constructor
  · rintro (h | ⟨mark, hmark, place, hplace, h⟩)
    · exact h
    · obtain ⟨later, hlater, hfits⟩ := haligned.fits_later hordered hmark hplace h
      have hused : text.drop later = [] := List.drop_eq_nil_of_le (by omega)
      rwa [hused] at hfits
  · exact .inl

/-- Past a single element and its character the same texts are left. -/
theorem viable_advance_iff
    (h : Fits (pattern.drop (cursor.element + 1)) (text.drop (cursor.place + 1)) ↔
      Fits (pattern.drop cursor.element) (text.drop cursor.place)) :
    cursor.advance.Viable pattern text ↔ cursor.Viable pattern text := by
  simp only [Viable, advance, h]

private theorem Aligned.advance (haligned : cursor.Aligned pattern)
    (hsingle : pattern[cursor.element]? ≠ some .anyRun) : cursor.advance.Aligned pattern := by
  intro mark hmark
  obtain ⟨hrun, hdistance, hbetween⟩ := haligned mark hmark
  refine ⟨hrun, ?_, fun i hi hlt => ?_⟩
  · simp only [Cursor.advance]
    omega
  · by_cases hlast : i = cursor.element
    · rwa [hlast]
    · simp only [Cursor.advance] at hlt
      exact hbetween i hi (by omega)

/-- A run takes whatever an earlier one would have taken. -/
theorem Aligned.viable_enterRun_iff (haligned : cursor.Aligned pattern)
    (hordered : cursor.Ordered) {rest : List Element}
    (hhead : pattern.drop cursor.element = .anyRun :: rest) :
    cursor.enterRun.Viable pattern text ↔ cursor.Viable pattern text := by
  have hrest : pattern.drop (cursor.element + 1) = rest := by
    rw [← List.tail_drop, hhead, List.tail_cons]
  have hrun (place : Nat) : Fits (pattern.drop cursor.element) (text.drop place) ↔
      ∃ later, place ≤ later ∧ Fits rest (text.drop later) := by
    rw [hhead, fits_anyRun_iff]
  have henter : cursor.enterRun.Viable pattern text ↔
      ∃ later, cursor.place ≤ later ∧ Fits rest (text.drop later) := by
    simp only [Viable, enterRun, hrest, Option.mem_some_iff, exists_eq_left']
    constructor
    · rintro (h | ⟨later, hlt, h⟩)
      · exact ⟨_, le_rfl, h⟩
      · exact ⟨later, hlt.le, h⟩
    · rintro ⟨later, hle, h⟩
      rcases hle.eq_or_lt with rfl | hlt
      · exact .inl h
      · exact .inr ⟨later, hlt, h⟩
  rw [henter, Viable, hrun]
  constructor
  · exact .inl
  · rintro (h | ⟨mark, hmark, place, hplace, h⟩)
    · exact h
    · obtain ⟨later, hlater, hfits⟩ := haligned.fits_later hordered hmark hplace h
      -- the new run starts no later than what the old one would have left over
      obtain ⟨last, hlast, hfits⟩ := (hrun later).1 hfits
      exact ⟨last, by omega, hfits⟩

private theorem enterRun_aligned (hhead : pattern[cursor.element]? = some .anyRun) :
    cursor.enterRun.Aligned pattern := by
  intro mark hmark
  obtain rfl : (⟨cursor.element, cursor.place⟩ : Mark) = mark := Option.some.inj hmark
  refine ⟨hhead, ?_, fun i hi hlt => ?_⟩
  · simp only [Cursor.enterRun]
    omega
  · simp only [Cursor.enterRun] at hi hlt
    omega

/-- After a mismatch only a longer run at the mark is left. -/
theorem viable_lengthen_iff {mark : Mark} (hmark : cursor.mark = some mark)
    (hmismatch : ¬Fits (pattern.drop cursor.element) (text.drop cursor.place)) :
    (lengthen mark).Viable pattern text ↔ cursor.Viable pattern text := by
  simp only [Viable, lengthen, hmark, hmismatch, false_or, Option.mem_some_iff, exists_eq_left']
  constructor
  · rintro (h | ⟨place, hlt, h⟩)
    · exact ⟨_, Nat.lt_succ_self _, h⟩
    · exact ⟨place, by omega, h⟩
  · rintro ⟨place, hlt, h⟩
    rcases (Nat.succ_le_of_lt hlt).eq_or_lt with rfl | hlt
    · exact .inl h
    · exact .inr ⟨place, hlt, h⟩

private theorem Aligned.lengthen {mark : Mark} (haligned : cursor.Aligned pattern)
    (hmark : cursor.mark = some mark) : (lengthen mark).Aligned pattern := by
  intro other hother
  obtain rfl : (⟨mark.run, mark.start + 1⟩ : Mark) = other := Option.some.inj hother
  refine ⟨(haligned mark hmark).1, ?_, fun i hi hlt => ?_⟩
  · simp only [Cursor.lengthen]
    omega
  · simp only [Cursor.lengthen] at hi hlt
    omega

end Cursor

/-- A step keeps to the answer at the cursor: it stops with it, or leaves it open. -/
def Step.Answers (pattern : List Element) (text : List Char) (cursor : Cursor) : Step → Prop
  | .move next =>
    next.Aligned pattern ∧ (next.Viable pattern text ↔ cursor.Viable pattern text)
  | .stop matched => matched = true ↔ cursor.Viable pattern text

variable {pattern : List Element} {text : List Char} {cursor : Cursor}

/-- After a mismatch the match goes back to the mark, or there is none to go back to. -/
theorem retry_answers (haligned : cursor.Aligned pattern)
    (hmismatch : ¬Fits (pattern.drop cursor.element) (text.drop cursor.place)) :
    (retry cursor).Answers pattern text cursor := by
  cases hmark : cursor.mark with
  | none => simp [retry, hmark, Step.Answers, Cursor.Viable, hmismatch]
  | some mark =>
    rw [retry, hmark]
    exact ⟨haligned.lengthen hmark, Cursor.viable_lengthen_iff hmark hmismatch⟩

private theorem step_answers (haligned : cursor.Aligned pattern) (hordered : cursor.Ordered) :
    (step pattern text cursor).Answers pattern text cursor := by
  -- the cases are the look-ups of the step: the next character, then the next element
  cases htext : text[cursor.place]? with
  | none =>
    have hend := haligned.viable_at_end_iff hordered (List.getElem?_eq_none_iff.1 htext)
    simp only [step, htext, Step.Answers, hend, List.all_eq_true, decide_eq_true_eq]
  | some t =>
    have hright : text.drop cursor.place = t :: text.drop (cursor.place + 1) :=
      List.drop_eq_getElem?_toList_append.trans (by simp [htext])
    cases hpattern : pattern[cursor.element]? with
    | none =>
      simp only [step, htext, hpattern]
      apply retry_answers haligned
      rw [List.drop_eq_nil_of_le (List.getElem?_eq_none_iff.1 hpattern), hright]
      rintro ⟨⟩
    | some element =>
      have hleft : pattern.drop cursor.element =
          element :: pattern.drop (cursor.element + 1) :=
        List.drop_eq_getElem?_toList_append.trans (by simp [hpattern])
      cases element with
      | char p =>
        by_cases heq : p = t
        · simp only [step, htext, hpattern, if_pos heq]
          refine ⟨haligned.advance (by simp [hpattern]), Cursor.viable_advance_iff ?_⟩
          rw [hleft, hright, heq]
          exact ⟨.char, fun h => by cases h; assumption⟩
        · simp only [step, htext, hpattern, if_neg heq]
          apply retry_answers haligned
          rw [hleft, hright]
          intro h
          cases h
          exact heq rfl
      | anyOne =>
        simp only [step, htext, hpattern]
        refine ⟨haligned.advance (by simp [hpattern]), Cursor.viable_advance_iff ?_⟩
        rw [hleft, hright]
        exact ⟨.anyOne, fun h => by cases h; assumption⟩
      | anyRun =>
        simp only [step, htext, hpattern]
        exact ⟨Cursor.enterRun_aligned hpattern, haligned.viable_enterRun_iff hordered hleft⟩

/-- The match from a cursor on finds out whether the pattern can still fit. -/
theorem scan_iff (hcursor : cursor.Ordered) (haligned : cursor.Aligned pattern) :
    scan pattern text cursor hcursor = true ↔ cursor.Viable pattern text := by
  fun_induction scan pattern text cursor hcursor with
  | case1 cursor hcursor matched hstop =>
    have hanswers : (step pattern text cursor).Answers pattern text cursor :=
      step_answers haligned hcursor
    rwa [hstop] at hanswers
  | case2 cursor hcursor next hmove ih =>
    have hanswers : (step pattern text cursor).Answers pattern text cursor :=
      step_answers haligned hcursor
    rw [hmove] at hanswers
    obtain ⟨hnext, hiff⟩ := hanswers
    rw [ih hnext, hiff]

/-- Matching accepts exactly the texts that the pattern fits, letter case aside. -/
theorem accepts_iff (pattern text : String) :
    accepts pattern text = true ↔ Fits (elements pattern.toList) (lower text.toList) := by
  rw [accepts, scan_iff Cursor.first_ordered (Cursor.first_aligned _), Cursor.viable_first_iff]

/-- An escaped text stands for itself, letter case aside. -/
theorem elements_escape_append (text rest : List Char) :
    elements (escape text ++ rest) = (lower text).map .char ++ elements rest := by
  induction text with
  | nil => rfl
  | cons c text ih =>
    by_cases h : c = '\\' ∨ c = '%' ∨ c = '_'
    · rw [escape, if_pos h, List.cons_append, List.cons_append, elements, ih]
      simp
    · rw [escape, if_neg h, List.cons_append]
      obtain ⟨hslash, hpercent, hunderscore⟩ : c ≠ '\\' ∧ c ≠ '%' ∧ c ≠ '_' := by
        simpa only [not_or] using h
      rw [elements, if_neg hpercent, if_neg hunderscore, ih]
      · simp
      · rintro _ _ rfl
        exact absurd rfl hslash

/-- The pattern of the texts that contain a text accepts exactly these, letter case aside. -/
theorem accepts_containing_iff (needle : List Char) (text : String) :
    accepts (String.ofList (containing needle)) text = true ↔
      lower needle <:+: lower text.toList := by
  have helements : elements (containing needle) =
      .anyRun :: ((lower needle).map .char ++ [.anyRun]) := by
    rw [containing, List.cons_append, elements]
    · simp [elements_escape_append, elements]
    · rintro _ _ ⟨⟩
  have htail (rest : List Char) : Fits [.anyRun] rest := by
    simpa using Fits.anyRun rest .done
  rw [accepts_iff, String.toList_ofList, helements]
  constructor
  · intro h
    generalize lower text.toList = whole at h
    cases h with
    | anyRun before h =>
      obtain ⟨after, rfl, -⟩ := (fits_literal_append_iff ..).1 h
      exact ⟨before, after, by simp⟩
  · rintro ⟨before, after, h⟩
    rw [← h, List.append_assoc]
    exact .anyRun before ((fits_literal_append_iff ..).2 ⟨after, rfl, htail after⟩)

end Bookkeeping.Like
