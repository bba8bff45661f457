import Bookkeeping.Like
import Mathlib.Data.List.Infix

/-!
# The course of a match

A match passes through one cursor after another until it stops. On the way the cursor stays within
the pattern and the text, and its mark stays at a run of the pattern. After a mismatch the cursor
goes back in both, so neither of its places tells how long this takes. The start of the run at the
mark never goes back, and while it stays the cursor only moves on in the pattern: together they
bound the number of steps.
-/

namespace Bookkeeping.Like

open Bookkeeping.Text

/-- So many steps of a match lead from the start to this cursor. -/
inductive Passes (pattern : List Element) (text : List Char) : Nat → Cursor → Prop where
  | first : Passes pattern text 0 .first
  | onward {steps : Nat} {cursor next : Cursor} (hcursor : Passes pattern text steps cursor)
      (hstep : step pattern text cursor = .move next) : Passes pattern text (steps + 1) next

/-- The cursor has used no more than there is, and its mark is a run that it has passed, which
begins where the cursor stands in the text or before. -/
structure Cursor.Within (pattern : List Element) (text : List Char) (cursor : Cursor) : Prop where
  element_le : cursor.element ≤ pattern.length
  place_le : cursor.place ≤ text.length
  run_eq : ∀ mark ∈ cursor.mark, pattern[mark.run]? = some .anyRun
  run_lt : ∀ mark ∈ cursor.mark, mark.run < cursor.element
  start_le : ∀ mark ∈ cursor.mark, mark.start ≤ cursor.place

/-- What a match may still have to do: so many starts are left to the run at the mark, for each of
them the whole pattern, and the rest of the pattern for the present one. -/
def Cursor.remaining (pattern : List Element) (text : List Char) (cursor : Cursor) : Nat :=
  (text.length - cursor.runStart) * (pattern.length + 1) + (pattern.length - cursor.element)

variable {pattern : List Element} {text : List Char} {cursor next : Cursor} {steps : Nat}

namespace Cursor

private theorem first_within (pattern : List Element) (text : List Char) :
    first.Within pattern text := by
  constructor <;> simp [first]

private theorem Within.advance (h : cursor.Within pattern text)
    (helement : cursor.element < pattern.length)
    (hplace : cursor.place < text.length) : cursor.advance.Within pattern text where
  element_le := helement
  place_le := hplace
  run_eq := h.run_eq
  run_lt mark hmark := Nat.lt_succ_of_lt (h.run_lt mark hmark)
  start_le mark hmark := Nat.le_succ_of_le (h.start_le mark hmark)

private theorem Within.enterRun (h : cursor.Within pattern text)
    (hrun : pattern[cursor.element]? = some .anyRun) : cursor.enterRun.Within pattern text := by
  have helement : cursor.element < pattern.length := (List.getElem?_eq_some_iff.1 hrun).1
  -- the mark of the next cursor is where this one stands
  constructor <;> simp only [Cursor.enterRun, Option.mem_some_iff, forall_eq']
  · exact helement
  · exact h.place_le
  · exact hrun
  · exact Nat.lt_succ_self _
  · exact le_rfl

private theorem Within.lengthen {mark : Mark} (h : cursor.Within pattern text)
    (hmark : cursor.mark = some mark) (hplace : cursor.place < text.length) :
    (lengthen mark).Within pattern text := by
  have hrun := h.run_lt mark hmark
  have hstart := h.start_le mark hmark
  have helement := h.element_le
  constructor <;> simp only [Cursor.lengthen, Option.mem_some_iff, forall_eq']
  · omega
  · omega
  · exact h.run_eq mark hmark
  · exact Nat.lt_succ_self _
  · exact le_rfl

/-- A step keeps the cursor within pattern and text. -/
theorem Within.step (h : cursor.Within pattern text)
    (hstep : step pattern text cursor = .move next) : next.Within pattern text := by
  obtain ⟨hplace, ⟨helement, rfl⟩ | ⟨hrun, rfl⟩ | ⟨mark, hmark, rfl⟩⟩ := step_move hstep
  · exact h.advance helement hplace
  · exact h.enterRun hrun
  · exact h.lengthen hmark hplace

private theorem Within.runStart_le (h : cursor.Within pattern text) :
    cursor.runStart ≤ cursor.place := by
  unfold runStart
  cases hmark : cursor.mark with
  | none => exact Nat.zero_le _
  | some mark => exact h.start_le mark hmark

/-- One start less is worth more than the whole pattern. -/
theorem remaining_lt_of_runStart_lt (hstart : cursor.runStart < next.runStart)
    (hle : next.runStart ≤ text.length) :
    next.remaining pattern text < cursor.remaining pattern text := by
  have hstarts : text.length - next.runStart + 1 ≤ text.length - cursor.runStart := by omega
  have hworth := Nat.mul_le_mul_right (pattern.length + 1) hstarts
  rw [Nat.add_mul, Nat.one_mul] at hworth
  unfold remaining
  omega

/-- With the start where it was or later, one element less is left to do. -/
theorem remaining_lt_of_element_lt (hstart : cursor.runStart ≤ next.runStart)
    (helement : cursor.element < next.element) (hle : next.element ≤ pattern.length) :
    next.remaining pattern text < cursor.remaining pattern text := by
  have hstarts : text.length - next.runStart ≤ text.length - cursor.runStart := by omega
  have hworth := Nat.mul_le_mul_right (pattern.length + 1) hstarts
  unfold remaining
  omega

/-- Each step leaves less to do. -/
theorem Within.remaining_lt (h : cursor.Within pattern text)
    (hstep : Like.step pattern text cursor = .move next) :
    next.remaining pattern text < cursor.remaining pattern text := by
  have hnext := h.step hstep
  have hstart := h.runStart_le
  obtain ⟨hplace, ⟨-, rfl⟩ | ⟨-, rfl⟩ | ⟨mark, hmark, rfl⟩⟩ := step_move hstep
  · exact remaining_lt_of_element_lt le_rfl (Nat.lt_succ_self _) hnext.element_le
  · exact remaining_lt_of_element_lt hstart (Nat.lt_succ_self _) hnext.element_le
  · have hbefore : cursor.runStart = mark.start := by rw [runStart, hmark]; rfl
    have hafter : (Cursor.lengthen mark).runStart = mark.start + 1 := rfl
    exact remaining_lt_of_runStart_lt (by omega) (hnext.runStart_le.trans hnext.place_le)

end Cursor

/-- A match stays within pattern and text. -/
theorem Passes.within (h : Passes pattern text steps cursor) : cursor.Within pattern text := by
  induction h with
  | first => exact Cursor.first_within pattern text
  | onward _ hstep ih => exact ih.step hstep

/-- The steps made and what is left to do are never more than there was to do at the start. -/
theorem Passes.add_remaining_le (h : Passes pattern text steps cursor) :
    steps + cursor.remaining pattern text ≤ Cursor.first.remaining pattern text := by
  induction h with
  | first => exact (Nat.zero_add _).le
  | @onward steps cursor next hcursor hstep ih =>
    have hless := hcursor.within.remaining_lt hstep
    omega

/-- A match makes fewer steps than there are places in the pattern for each place in the text. -/
theorem Passes.lt (h : Passes pattern text steps cursor) :
    steps < (text.length + 1) * (pattern.length + 1) := by
  have hle := h.add_remaining_le
  have hfirst : Cursor.first.remaining pattern text =
      text.length * (pattern.length + 1) + pattern.length := rfl
  rw [Nat.add_mul, Nat.one_mul]
  omega

/-- From a cursor that is passed, the match goes on to the cursor where it stops. -/
theorem Passes.exists_stop (h : Passes pattern text steps cursor) (hcursor : cursor.Ordered) :
    ∃ total last, Passes pattern text total last ∧
      step pattern text last = .stop (scan pattern text cursor hcursor) := by
  fun_induction scan pattern text cursor hcursor generalizing steps with
  | case1 cursor hcursor matched hstop => exact ⟨steps, cursor, h, hstop⟩
  | case2 cursor hcursor next hmove ih => exact ih (h.onward hmove)

/-- A match comes to a cursor where it stops with its answer. Whatever cursor it passes on the way
lies within the pattern and the text, with its mark at a run of the pattern before it, and after
fewer steps than there are places in the text times places in the pattern. -/
theorem accepts_stays_within (pattern text : String) :
    (∃ steps cursor, Passes (elements pattern.toList) (lower text.toList) steps cursor ∧
        step (elements pattern.toList) (lower text.toList) cursor =
          .stop (accepts pattern text)) ∧
      ∀ steps cursor, Passes (elements pattern.toList) (lower text.toList) steps cursor →
        cursor.Within (elements pattern.toList) (lower text.toList) ∧
          steps < ((lower text.toList).length + 1) * ((elements pattern.toList).length + 1) :=
  ⟨Passes.first.exists_stop Cursor.first_ordered, fun _ _ h => ⟨h.within, h.lt⟩⟩

/-- The second letter of the pattern does not match the second one of the text, so the run takes one
more character: cursor and text go back, and the mark moves on. -/
theorem accepts_stays_within_retried :
    Passes (elements "%ab".toList) (lower "AAB".toList) 3 ⟨1, 1, some ⟨0, 1⟩⟩ ∧
      Cursor.Within (elements "%ab".toList) (lower "AAB".toList) ⟨1, 1, some ⟨0, 1⟩⟩ ∧
      3 < ((lower "AAB".toList).length + 1) * ((elements "%ab".toList).length + 1) := by
  have hentered : Passes (elements "%ab".toList) (lower "AAB".toList) 1 ⟨1, 0, some ⟨0, 0⟩⟩ :=
    .onward .first rfl
  have hmatched : Passes (elements "%ab".toList) (lower "AAB".toList) 2 ⟨2, 1, some ⟨0, 0⟩⟩ :=
    hentered.onward rfl
  have hretried : Passes (elements "%ab".toList) (lower "AAB".toList) 3 ⟨1, 1, some ⟨0, 1⟩⟩ :=
    hmatched.onward rfl
  exact ⟨hretried, (accepts_stays_within "%ab" "AAB").2 3 _ hretried⟩

end Bookkeeping.Like
