import Bookkeeping.Predicate
import Bookkeeping.Proofs.Like
import Mathlib.Data.List.Forall2

/-!
# Patterns as they are written

A pattern is spelled by signs: a run, a single character of any kind, or a letter, which may be
written behind a backslash. It accepts a text when the lowered text can be cut into pieces, one for
each sign and in their order. A letter takes its whole lower case, so one sign may stand for several
characters, and the cuts are those of the signs, not of the matcher.

The pattern of the texts that contain a needle writes a backslash in front of each special character
of the needle, so that the needle stands for itself.
-/

namespace Bookkeeping

open Bookkeeping.Text

namespace Like

/-- What is written in a pattern. -/
inductive Sign where
  | anyRun
  | anyOne
  | letter (c : Char)

/-- The signs that a pattern is written with. A backslash belongs to the character behind it, and
is a letter at the end of the pattern. -/
inductive Spells : List Sign → List Char → Prop where
  | done : Spells [] []
  | anyRun {signs : List Sign} {rest : List Char} : Spells signs rest →
    Spells (.anyRun :: signs) ('%' :: rest)
  | anyOne {signs : List Sign} {rest : List Char} : Spells signs rest →
    Spells (.anyOne :: signs) ('_' :: rest)
  | plain {c : Char} {signs : List Sign} {rest : List Char} : c ≠ '%' → c ≠ '_' → c ≠ '\\' →
    Spells signs rest → Spells (.letter c :: signs) (c :: rest)
  | escaped (c : Char) {signs : List Sign} {rest : List Char} : Spells signs rest →
    Spells (.letter c :: signs) ('\\' :: c :: rest)
  | lastSlash : Spells [.letter '\\'] ['\\']

/-- The piece of a lowered text that a sign takes. -/
inductive Sign.Takes : Sign → List Char → Prop where
  | anyRun (run : List Char) : Takes .anyRun run
  | anyOne (c : Char) : Takes .anyOne [c]
  | letter (c : Char) : Takes (.letter c) (lowerChar c)

/-- The elements that a sign is matched by. -/
def Sign.elements : Sign → List Element
  | .anyRun => [.anyRun]
  | .anyOne => [.anyOne]
  | .letter c => (lowerChar c).map .char

/-- A pattern is spelled by some signs. -/
theorem exists_spells (pattern : List Char) : ∃ signs, Spells signs pattern := by
  -- the induction is that of the reader, which takes two characters after a backslash
  fun_induction elements pattern with
  | case1 => exact ⟨[], .done⟩
  | case2 c rest ih =>
    obtain ⟨signs, h⟩ := ih
    exact ⟨_, .escaped c h⟩
  | case3 rest _ ih =>
    obtain ⟨signs, h⟩ := ih
    exact ⟨_, .anyRun h⟩
  | case4 rest _ _ ih =>
    obtain ⟨signs, h⟩ := ih
    exact ⟨_, .anyOne h⟩
  | case5 c rest hlast hpercent hunderscore ih =>
    by_cases hslash : c = '\\'
    · cases rest with
      | nil =>
        rw [hslash]
        exact ⟨_, .lastSlash⟩
      | cons next rest => exact absurd rfl (hlast next rest hslash)
    · obtain ⟨signs, h⟩ := ih
      exact ⟨_, .plain hpercent hunderscore hslash h⟩

/-- No pattern is spelled in two ways. -/
theorem Spells.unique {signs others : List Sign} {pattern : List Char} (h : Spells signs pattern)
    (hothers : Spells others pattern) : others = signs := by
  induction h generalizing others with
  | done =>
    cases hothers
    rfl
  | anyRun _ ih =>
    cases hothers with
    | anyRun hrest => rw [ih hrest]
    | plain hpercent => exact absurd rfl hpercent
  | anyOne _ ih =>
    cases hothers with
    | anyOne hrest => rw [ih hrest]
    | plain _ hunderscore => exact absurd rfl hunderscore
  | plain hpercent hunderscore hslash _ ih =>
    cases hothers with
    | anyRun => exact absurd rfl hpercent
    | anyOne => exact absurd rfl hunderscore
    | plain _ _ _ hrest => rw [ih hrest]
    | escaped => exact absurd rfl hslash
    | lastSlash => exact absurd rfl hslash
  | escaped c _ ih =>
    cases hothers with
    | plain _ _ hslash => exact absurd rfl hslash
    | escaped _ hrest => rw [ih hrest]
  | lastSlash =>
    cases hothers with
    | plain _ _ hslash => exact absurd rfl hslash
    | lastSlash => rfl

/-- A character that is not special is read as its lower case. -/
theorem elements_plain {c : Char} (hpercent : c ≠ '%') (hunderscore : c ≠ '_') (hslash : c ≠ '\\')
    (rest : List Char) : elements (c :: rest) = (lowerChar c).map .char ++ elements rest := by
  rw [elements, if_neg hpercent, if_neg hunderscore]
  intro _ _ h
  exact absurd h hslash

/-- A pattern is matched by the elements of its signs. -/
theorem Spells.elements_eq {signs : List Sign} {pattern : List Char} (h : Spells signs pattern) :
    elements pattern = signs.flatMap Sign.elements := by
  induction h with
  | done => rfl
  | anyRun _ ih => exact congrArg (Element.anyRun :: ·) ih
  | anyOne _ ih => exact congrArg (Element.anyOne :: ·) ih
  | plain hpercent hunderscore hslash _ ih =>
    rw [elements_plain hpercent hunderscore hslash, ih]
    rfl
  | escaped c _ ih =>
    rw [elements, ih]
    rfl
  | lastSlash => rfl

/-- The elements of a sign fit the piece that it takes, and what is left fits the rest. -/
theorem fits_sign_append_iff (sign : Sign) (pattern : List Element) (text : List Char) :
    Fits (sign.elements ++ pattern) text ↔
      ∃ piece rest, sign.Takes piece ∧ text = piece ++ rest ∧ Fits pattern rest := by
  cases sign with
  | anyRun =>
    constructor
    · intro h
      cases h with
      | anyRun run h => exact ⟨run, _, .anyRun run, rfl, h⟩
    · rintro ⟨run, rest, -, rfl, h⟩
      exact .anyRun run h
  | anyOne =>
    constructor
    · intro h
      cases h with
      | @anyOne c _ rest h => exact ⟨[c], rest, .anyOne c, rfl, h⟩
    · rintro ⟨piece, rest, htakes, rfl, h⟩
      cases htakes
      exact .anyOne h
  | letter c =>
    rw [Sign.elements, fits_literal_append_iff]
    constructor
    · rintro ⟨rest, htext, h⟩
      exact ⟨lowerChar c, rest, .letter c, htext, h⟩
    · rintro ⟨piece, rest, htakes, htext, h⟩
      cases htakes
      exact ⟨rest, htext, h⟩

/-- The elements of signs fit what can be cut into the pieces that the signs take. -/
theorem fits_signs_iff (signs : List Sign) (text : List Char) :
    Fits (signs.flatMap Sign.elements) text ↔
      ∃ pieces, List.Forall₂ Sign.Takes signs pieces ∧ pieces.flatten = text := by
  induction signs generalizing text with
  | nil =>
    constructor
    · intro h
      cases h
      exact ⟨[], .nil, rfl⟩
    · rintro ⟨pieces, htakes, rfl⟩
      cases htakes
      exact .done
  | cons sign signs ih =>
    rw [List.flatMap_cons, fits_sign_append_iff]
    constructor
    · rintro ⟨piece, rest, htakes, rfl, h⟩
      obtain ⟨pieces, hpieces, rfl⟩ := (ih rest).1 h
      exact ⟨piece :: pieces, .cons htakes hpieces, rfl⟩
    · rintro ⟨pieces, htakes, rfl⟩
      cases htakes with
      | @cons _ piece _ pieces hpiece hpieces =>
        exact ⟨piece, pieces.flatten, hpiece, rfl, (ih _).2 ⟨pieces, hpieces, rfl⟩⟩

/-- **Patterns.** A pattern is spelled by exactly one list of signs, and accepts the texts whose
lower case can be cut into pieces, one after another, that these signs take in order. -/
theorem accepts_iff_pieces (pattern : String) :
    ∃ signs, (∀ others, Spells others pattern.toList ↔ others = signs) ∧
      ∀ text : String, accepts pattern text = true ↔
        ∃ pieces, List.Forall₂ Sign.Takes signs pieces ∧ pieces.flatten = lower text.toList := by
  obtain ⟨signs, hspells⟩ := exists_spells pattern.toList
  refine ⟨signs, fun others => ?_, fun text => ?_⟩
  · constructor
    · exact hspells.unique
    · rintro rfl
      exact hspells
  · rw [accepts_iff, hspells.elements_eq, fits_signs_iff]

/-- An escaped sign, a character of any kind, a letter whose lower case is two characters, and a
backslash at the end. -/
example : elements ['\\', '%', '_', '\u0130', '\\'] =
    [.char '%', .anyOne, .char 'i', .char '\u0307', .char '\\'] := by decide

end Like

/-- A pattern of contained text asks for a stored text that contains it. -/
theorem Predicate.likeness_containing_iff {needle : String} {stored : Option Value} :
    likeness (String.ofList (Like.containing needle.toList)) stored = true ↔
      ∃ text, stored = some (.text text) ∧ lower needle.toList <:+: lower text.toList := by
  cases stored with
  | none => simp [likeness]
  | some value =>
    cases value with
    | text s => simp [likeness, Like.accepts_containing_iff]
    | _ => simp [likeness]

/-- **Containing a text.** The predicate of a needle holds of a record whose column has a text that
contains the needle as one piece, both lowered character by character, whatever characters they
have. So without a needle it holds of every text, and of nothing else. -/
theorem Predicate.holds_contains_iff (column : Column) (needle : String)
    (record : Column → Option Value) :
    ((contains column needle).holds record = true ↔
      ∃ stored, record column = some (.text stored) ∧
        lower needle.toList <:+: lower stored.toList) ∧
    ((contains column "").holds record = true ↔
      ∃ stored, record column = some (.text stored)) := by
  have hholds (needle : String) : (contains column needle).holds record = true ↔
      ∃ stored, record column = some (.text stored) ∧
        lower needle.toList <:+: lower stored.toList := by
    rw [contains, holds, likeness_containing_iff]
  refine ⟨hholds needle, (hholds "").trans (exists_congr fun stored => ?_)⟩
  exact and_iff_left (List.nil_infix)

end Bookkeeping
