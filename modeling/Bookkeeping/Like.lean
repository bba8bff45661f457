import Bookkeeping.Text.LowerCase

/-!
# Patterns

A pattern is matched against a whole text, letter case aside: `%` stands for any run of
characters, `_` for any one character, a backslash takes the next character literally, and
every other character stands for itself. Pattern and text are lowered character by character
first.

Matching walks both from left to right and keeps one mark, the last run passed and where it
began to take characters. On a mismatch the run at the mark takes one more character. A cursor
whose mark lies behind it moves only finitely often.
-/

namespace Bookkeeping.Like

open Bookkeeping.Text

/-- One element of a pattern. -/
inductive Element where
  | anyRun
  | anyOne
  | char (c : Char)
  deriving DecidableEq

/-- The elements of a pattern. A backslash at the end stands for itself. -/
def elements : List Char → List Element
  | [] => []
  | '\\' :: c :: rest => (lowerChar c).map .char ++ elements rest
  | c :: rest =>
    if c = '%' then .anyRun :: elements rest
    else if c = '_' then .anyOne :: elements rest
    else (lowerChar c).map .char ++ elements rest

/-- The text with a backslash in front of each character that a pattern reads specially. -/
def escape : List Char → List Char
  | [] => []
  | c :: rest =>
    if c = '\\' ∨ c = '%' ∨ c = '_' then '\\' :: c :: escape rest else c :: escape rest

/-- The pattern of the texts that contain this text. -/
def containing (text : List Char) : List Char :=
  '%' :: escape text ++ ['%']

/-- A run of the pattern and the place in the text where it began. -/
structure Mark where
  run : Nat
  start : Nat

/-- How much of the pattern and of the text is used, and the last run passed. -/
structure Cursor where
  element : Nat
  place : Nat
  mark : Option Mark

namespace Cursor

/-- A cursor at the start of both. -/
def first : Cursor := ⟨0, 0, none⟩

/-- The mark lies behind the cursor in the pattern and not ahead of it in the text. -/
def Ordered (cursor : Cursor) : Prop :=
  ∀ mark ∈ cursor.mark, mark.run < cursor.element ∧ mark.start ≤ cursor.place

/-- One element matched one character. -/
def advance (cursor : Cursor) : Cursor :=
  { cursor with element := cursor.element + 1, place := cursor.place + 1 }

/-- The element under the cursor is a run; it takes nothing for now. -/
def enterRun (cursor : Cursor) : Cursor :=
  { cursor with
    element := cursor.element + 1
    mark := some ⟨cursor.element, cursor.place⟩ }

/-- The run at the mark takes one more character. -/
def lengthen (mark : Mark) : Cursor :=
  ⟨mark.run + 1, mark.start + 1, some ⟨mark.run, mark.start + 1⟩⟩

/-- How many elements of the pattern the runs passed have closed off. -/
def closed (cursor : Cursor) : Nat :=
  cursor.mark.elim 0 (·.run + 1)

/-- Where the run at the mark began. -/
def runStart (cursor : Cursor) : Nat :=
  cursor.mark.elim 0 (·.start)

/-- A match starts with its cursors in order. -/
theorem first_ordered : first.Ordered := by
  simp [Ordered, first]

end Cursor

/-- What one step of a match does. -/
inductive Step where
  | move (next : Cursor)
  | stop (matched : Bool)

/-- After a mismatch: go back to the mark, or give up. -/
def retry (cursor : Cursor) : Step :=
  match cursor.mark with
  | some mark => .move (Cursor.lengthen mark)
  | none => .stop false

/-- One step of a match. When the text is used up, only runs may be left of the pattern. -/
def step (pattern : List Element) (text : List Char) (cursor : Cursor) : Step :=
  match text[cursor.place]? with
  | none => .stop ((pattern.drop cursor.element).all (· = .anyRun))
  | some t =>
    match pattern[cursor.element]? with
    | some (.char p) => if p = t then .move cursor.advance else retry cursor
    | some .anyOne => .move cursor.advance
    | some .anyRun => .move cursor.enterRun
    | none => retry cursor

/-- The ways a step can move on, each with what it has read. -/
theorem step_move {pattern : List Element} {text : List Char} {cursor next : Cursor}
    (h : step pattern text cursor = .move next) :
    cursor.place < text.length ∧
      (cursor.element < pattern.length ∧ next = cursor.advance ∨
        pattern[cursor.element]? = some .anyRun ∧ next = cursor.enterRun ∨
        ∃ mark, cursor.mark = some mark ∧ next = Cursor.lengthen mark) := by
  have hretry : retry cursor = .move next →
      ∃ mark, cursor.mark = some mark ∧ next = Cursor.lengthen mark := by
    unfold retry
    cases cursor.mark with
    | none => simp
    | some mark => intro h; exact ⟨mark, rfl, (Step.move.inj h).symm⟩
  unfold step at h
  split at h
  · cases h
  · rename_i t ht
    have hplace : cursor.place < text.length := (List.getElem?_eq_some_iff.1 ht).1
    refine ⟨hplace, ?_⟩
    split at h
    · rename_i hp
      split at h
      · exact .inl ⟨(List.getElem?_eq_some_iff.1 hp).1, (Step.move.inj h).symm⟩
      · exact .inr (.inr (hretry h))
    · rename_i hp
      exact .inl ⟨(List.getElem?_eq_some_iff.1 hp).1, (Step.move.inj h).symm⟩
    · rename_i hp
      exact .inr (.inl ⟨hp, (Step.move.inj h).symm⟩)
    · exact .inr (.inr (hretry h))

/-- A step keeps the mark behind the cursor. -/
theorem Cursor.Ordered.step {pattern : List Element} {text : List Char}
    {cursor next : Cursor} (hcursor : cursor.Ordered)
    (h : step pattern text cursor = .move next) : next.Ordered := by
  intro mark hmark
  obtain ⟨-, ⟨-, rfl⟩ | ⟨-, rfl⟩ | ⟨old, hold, rfl⟩⟩ := step_move h
  · have := hcursor mark hmark
    exact ⟨Nat.lt_succ_of_lt this.1, Nat.le_succ_of_le this.2⟩
  · obtain rfl := Option.some.inj hmark
    exact ⟨Nat.lt_succ_self _, Nat.le_refl _⟩
  · obtain rfl := Option.some.inj hmark
    exact ⟨Nat.lt_succ_self _, Nat.le_refl _⟩

/-- Each step closes off more of the pattern, or lengthens the run at the mark, or uses more
of the text. -/
theorem step_decreases {pattern : List Element} {text : List Char} {cursor next : Cursor}
    (hcursor : cursor.Ordered) (h : step pattern text cursor = .move next) :
    Prod.Lex (· < ·) (Prod.Lex (· < ·) (· < ·))
      (pattern.length - next.closed, text.length - next.runStart, text.length - next.place)
      (pattern.length - cursor.closed, text.length - cursor.runStart,
        text.length - cursor.place) := by
  obtain ⟨hplace, ⟨-, rfl⟩ | ⟨hrun, rfl⟩ | ⟨mark, hmark, rfl⟩⟩ := step_move h
  · refine .right _ (.right _ ?_)
    simp only [Cursor.advance]
    omega
  · refine .left _ _ ?_
    have helement : cursor.element < pattern.length := (List.getElem?_eq_some_iff.1 hrun).1
    have hclosed : cursor.closed ≤ cursor.element := by
      unfold Cursor.closed
      cases hm : cursor.mark with
      | none => simp
      | some mark => exact (hcursor mark hm).1
    simp only [Cursor.closed, Cursor.enterRun, Option.elim_some] at hclosed ⊢
    omega
  · have := hcursor mark hmark
    have hclosed : (Cursor.lengthen mark).closed = cursor.closed := by
      simp [Cursor.closed, Cursor.lengthen, hmark]
    rw [hclosed]
    refine .right _ (.left _ _ ?_)
    simp only [Cursor.runStart, Cursor.lengthen, hmark, Option.elim_some]
    omega

/-- The match from a cursor on. -/
def scan (pattern : List Element) (text : List Char) (cursor : Cursor)
    (hcursor : cursor.Ordered) : Bool :=
  match h : step pattern text cursor with
  | .stop matched => matched
  | .move next => scan pattern text next (hcursor.step h)
termination_by
  (pattern.length - cursor.closed, text.length - cursor.runStart, text.length - cursor.place)
decreasing_by exact step_decreases hcursor h

/-- Whether the whole text matches the pattern. -/
def accepts (pattern text : String) : Bool :=
  scan (elements pattern.toList) (lower text.toList) Cursor.first Cursor.first_ordered

end Bookkeeping.Like
