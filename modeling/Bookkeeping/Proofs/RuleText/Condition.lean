import Bookkeeping.Proofs.RuleText.Literal
import Mathlib.Data.List.Lattice

/-!
# Conditions, read

Conditions nest by parentheses only, and every group takes a character from the text, so the bound
on the nesting is never reached. A chain goes on as long as its connective comes next; which
characters may come after a condition tells where it ends.
-/

namespace Bookkeeping.RuleText

open Reader

variable {text start rest : List Char}

section Operators

/-- The word for likeness is read in small and in capital letters. -/
private theorem like_eq_ok_iff {result : Unit × List Char} :
    choice [keyword "like", keyword "LIKE"] text = .ok result ↔
      Word "like" text result.2 ∨ Word "LIKE" text result.2 :=
  choice_keywords_eq_ok_iff (by decide) (by decide) (by decide)

/-- What is read as an operator has the form of one. -/
private theorem sound_operator : Sound operator (Spaced OperatorForm) := by
  refine Sound.spaced fun text rest found h => ?_
  simp only [labelled_eq_ok_iff, choice_cons_eq_ok_iff, choice_singleton, steps_eq_ok_iff,
    pure_eq_ok_iff, keyword_eq_ok_iff, word_eq_ok_iff, Prod.mk.injEq] at h
  rcases h with ⟨_, _, hlike, rfl, rfl⟩ | ⟨-, ⟨_, _, rfl, rfl, rfl⟩ | ⟨-, ⟨_, _, rfl, rfl, rfl⟩ |
    ⟨-, ⟨_, _, rfl, rfl, rfl⟩ | ⟨-, ⟨_, _, rfl, rfl, rfl⟩ | ⟨-, _, _, rfl, rfl, rfl⟩⟩⟩⟩⟩
  · exact .like (hlike.imp_right And.right)
  · exact .sign (show Operator.gte ≠ .like by decide) _
  · exact .sign (show Operator.gt ≠ .like by decide) _
  · exact .sign (show Operator.lte ≠ .like by decide) _
  · exact .sign (show Operator.lt ≠ .like by decide) _
  · exact .sign (show Operator.eq ≠ .like by decide) _

/-- An operator is a letter or a sign. -/
theorem OperatorForm.exists_head {op : Operator} (h : OperatorForm text rest op) :
    ∃ c ∈ text.head?, c ∈ ['l', 'L', '>', '<', '='] := by
  cases h with
  | like h =>
    rcases h with h | h
    · exact ⟨'l', h.head? (by decide), by decide⟩
    · exact ⟨'L', h.head? (by decide), by decide⟩
  | sign hop rest =>
    cases op with
    | like => exact absurd rfl hop
    | _ => exact ⟨_, rfl, by decide⟩

/-- An operator starts with no layout. -/
private theorem OperatorForm.bare {op : Operator} (h : OperatorForm text rest op) : Bare text := by
  obtain ⟨c, hc, hmem⟩ := h.exists_head
  have hmarks : ['l', 'L', '>', '<', '='].all isMark = true := by decide
  exact bare_of_head hc (List.all_eq_true.1 hmarks c hmem)

/-- An operator takes a character at least. -/
private theorem OperatorForm.length_lt {op : Operator} (h : OperatorForm text rest op) :
    rest.length < text.length := by
  cases h with
  | like h =>
    rcases h with h | h
    · exact h.length_lt (by decide)
    · exact h.length_lt (by decide)
  | sign hop rest =>
    have hpos : 0 < op.key.toList.length := by cases op <;> decide
    rw [List.length_append]
    omega

/-- Where no equals sign follows, a sign is not read as one that it does not start with. -/
theorem refuses_sign {op : Operator} (other : Operator) (hop : op ≠ .like) (hother : other ≠ .like)
    (hnot : ¬other.key.toList <+: op.key.toList) (hends : '=' ∉ rest.head?) :
    Refuses (Reader.word other.key) (op.key.toList ++ rest) := by
  refine refuses_word fun after htext => ?_
  rcases List.append_eq_append_iff.1 htext with ⟨more, hlonger, rfl⟩ | ⟨more, hlonger, -⟩
  · -- only an equals sign makes a sign longer
    have hmore : more = [] ∨ more = ['='] := by
      cases op <;> cases other <;> simp_all [Operator.key]
    rcases hmore with rfl | rfl
    · exact hnot ⟨[], by simpa using hlonger⟩
    · exact hends rfl
  · exact hnot ⟨more, hlonger.symm⟩

/-- The sign of a comparison is not taken for the word. -/
private theorem refuses_like {op : Operator} (hop : op ≠ .like) :
    Refuses (choice [keyword "like", keyword "LIKE"]) (op.key.toList ++ rest) := by
  refine ((mild_keyword _).orElse (mild_keyword _)).refuses fun result hread => ?_
  rcases like_eq_ok_iff.1 hread with ⟨htext, -⟩ | ⟨htext, -⟩
  · cases op with
    | like => exact hop rfl
    | _ => simp [Operator.key] at htext
  · cases op <;> simp [Operator.key] at htext

/-- An operator is read where no equals sign follows. -/
theorem complete_operator (bound : Nat) :
    Complete bound operator (Spaced OperatorForm) fun rest => '=' ∉ rest.head? := by
  refine Complete.spaced ?_ fun _ _ _ h => h.bare
  intro text rest op _ h hends
  rw [labelled_eq_ok_iff]
  cases h with
  | like h =>
    exact choice_eq_ok (steps_eq_ok_iff.2 ⟨(), rest, like_eq_ok_iff.2 h, rfl⟩)
  | sign hop rest =>
    have hread : (do Reader.word op.key; return op : Reader Operator) (op.key.toList ++ rest) =
        .ok (op, rest) :=
      steps_eq_ok_iff.2 ⟨(), rest, word_eq_ok_iff.2 rfl, rfl⟩
    have hothers (other : Operator) (hother : other ≠ .like)
        (hnot : ¬other.key.toList <+: op.key.toList) :
        Refuses (Reader.word other.key) (op.key.toList ++ rest) :=
      refuses_sign other hop hother hnot hends
    refine (refuses_like hop).bind.choice_eq_ok ?_
    -- each sign before that of the operator in the choice is refused
    cases op with
    | like => exact absurd rfl hop
    | gte => exact choice_eq_ok hread
    | gt =>
      refine (hothers .gte (by decide) (by decide)).bind.choice_eq_ok ?_
      exact choice_eq_ok hread
    | lte =>
      refine (hothers .gte (by decide) (by decide)).bind.choice_eq_ok ?_
      refine (hothers .gt (by decide) (by decide)).bind.choice_eq_ok ?_
      exact choice_eq_ok hread
    | lt =>
      refine (hothers .gte (by decide) (by decide)).bind.choice_eq_ok ?_
      refine (hothers .gt (by decide) (by decide)).bind.choice_eq_ok ?_
      refine (hothers .lte (by decide) (by decide)).bind.choice_eq_ok ?_
      exact choice_eq_ok hread
    | eq =>
      refine (hothers .gte (by decide) (by decide)).bind.choice_eq_ok ?_
      refine (hothers .gt (by decide) (by decide)).bind.choice_eq_ok ?_
      refine (hothers .lte (by decide) (by decide)).bind.choice_eq_ok ?_
      exact (hothers .lt (by decide) (by decide)).bind.choice_eq_ok hread

end Operators

section Chains

variable {bound : Nat} {operand : Reader Condition} {form : Form Condition} {op : Connective}

/-- A connective is read in capital and in small letters. -/
private theorem connective_eq_ok_iff {result : Unit × List Char} :
    choice ([op.display, op.key].map keyword) text = .ok result ↔
      Word op.display text result.2 ∨ Word op.key text result.2 := by
  cases op <;> exact choice_keywords_eq_ok_iff (by decide) (by decide) (by decide)

/-- The characters that a connective may start with. -/
def initials (op : Connective) : List Char :=
  (op.display.toList.take 1) ++ (op.key.toList.take 1)

/-- A connective starts with no layout. -/
private theorem isMark_of_mem_initials {c : Char} (h : c ∈ initials op) : isMark c = true := by
  have hmarks : (initials op).all isMark = true := by cases op <;> decide
  exact List.all_eq_true.1 hmarks c h

/-- A connective starts with one of its characters. -/
theorem exists_initial (h : Word op.key text rest ∨ Word op.display text rest) :
    ∃ c ∈ text.head?, c ∈ initials op := by
  rcases h with h | h
  · cases op <;> exact ⟨_, h.head? (by decide), by decide⟩
  · cases op <;> exact ⟨_, h.head? (by decide), by decide⟩

/-- What is joined starts with the first letter of its connective. -/
private theorem Joined.next {found : Condition} (h : Joined op form text rest found)
    (marks : List Char) :
    Next (initials op ++ marks) text := by
  obtain ⟨hlayout, hword, -⟩ := h
  obtain ⟨c, hc, hinitial⟩ := exists_initial hword
  exact hlayout.next hc (isMark_of_mem_initials hinitial) (List.mem_append_left _ hinitial)

/-- A joined condition takes the connective at least. -/
theorem Joined.shrinks (h : Shrinks bound form) : Shrinks bound (Joined op form) := by
  rintro _ _ _ hbound @⟨text, start, between, rest, found, hlayout, hword, hfound⟩
  have hstart := hlayout.length_le
  have hbetween : between.length ≤ start.length := hword.elim Word.length_le Word.length_le
  have hrest := h _ _ _ (by omega) hfound
  omega

/-- The reader of a connective and the condition after it. -/
theorem sound_joined (h : Sound operand form) :
    Sound (do layout; choice ([op.display, op.key].map keyword); required operand)
      (Joined op form) := by
  intro text rest found hread
  simp only [layout_bind, steps_eq_ok_iff, required_eq_ok_iff, connective_eq_ok_iff] at hread
  obtain ⟨_, between, hword, hfound⟩ := hread
  exact .mk (layout_skipLayout text) hword.symm (h _ _ _ hfound)

/-- A joined condition is read up to where its operand ends. -/
private theorem complete_joined {ends : List Char → Prop} (h : Complete bound operand form ends) :
    Complete bound (do layout; choice ([op.display, op.key].map keyword); required operand)
      (Joined op form) ends := by
  rintro _ _ _ hbound @⟨text, start, between, rest, found, hlayout, hword, hfound⟩ hends
  obtain ⟨c, hc, hinitial⟩ := exists_initial hword
  have hbare : Bare start := bare_of_head hc (isMark_of_mem_initials hinitial)
  have hstart := hlayout.length_le
  have hbetween : between.length ≤ start.length := hword.elim Word.length_le Word.length_le
  rw [layout_bind, hlayout.eq_of_bare hbare, steps_eq_ok_iff]
  exact ⟨(), between, connective_eq_ok_iff.2 hword.symm,
    required_eq_ok_iff.2 (h _ _ _ (by omega) hfound hends)⟩

/-- No operand is joined where neither letter of the connective comes next. -/
private theorem refuses_joined {marks : List Char} (h : Next marks rest)
    (hmarks : initials op ∩ marks = []) :
    Refuses (do layout; choice ([op.display, op.key].map keyword); required operand) rest := by
  have hmild : Mild (choice ([op.display, op.key].map keyword)) :=
    (mild_keyword _).orElse (mild_keyword _)
  have hchoice : Refuses (choice ([op.display, op.key].map keyword)) (skipLayout rest) := by
    refine hmild.refuses fun result hread => ?_
    obtain ⟨c, hc, hinitial⟩ := exists_initial (connective_eq_ok_iff.1 hread).symm
    exact List.inter_eq_nil_iff_disjoint.1 hmarks hinitial (h c hc)
  exact refuses_bind_of_ok rfl hchoice.bind

/-- What is read as a chain has the form of one. -/
private theorem sound_chain (h : Sound operand form) :
    Sound (chain op [op.display, op.key] operand) (Chain op form) := by
  intro text rest found hread
  simp only [chain, steps_eq_ok_iff, pure_eq_ok_iff, Prod.mk.injEq] at hread
  obtain ⟨first, between, hfirst, others, _, hothers, rfl, rfl⟩ := hread
  have hrepeated := (sound_joined h).many _ _ _ hothers
  cases others with
  | nil =>
    cases hrepeated
    exact .alone (h _ _ _ hfirst)
  | cons second others => exact .joined (h _ _ _ hfirst) hrepeated

/-- A chain, however long. -/
theorem Chain.exists_parts {found : Condition} (h : Chain op form text rest found) :
    ∃ first others between, form text between first ∧
      Repeated (Joined op form) between rest others ∧ found = group op first others := by
  cases h with
  | alone hfound => exact ⟨found, [], rest, hfound, .nil rest, rfl⟩
  | joined hfirst hothers => exact ⟨_, _, _, hfirst, hothers, rfl⟩

/-- A chain is read up to where its connective does not come next. -/
private theorem complete_chain {marks : List Char}
    (h : Complete bound operand form (Next (initials op ++ marks)))
    (hshrinks : Shrinks bound form) (hmarks : initials op ∩ marks = []) :
    Complete bound (chain op [op.display, op.key] operand) (Chain op form) (Next marks) := by
  intro text rest found hbound hchain hends
  obtain ⟨first, others, between, hfirst, hothers, rfl⟩ := hchain.exists_parts
  have hrest : Next (initials op ++ marks) rest := hends.mono (List.subset_append_right _ _)
  have hbetween : Next (initials op ++ marks) between := by
    cases hothers with
    | nil => exact hrest
    | cons hnext _ => exact hnext.next marks
  have hshorter := hshrinks _ _ _ hbound hfirst
  have hread := (complete_joined h).many (Joined.shrinks hshrinks)
    (fun _ _ _ hjoined => hjoined.next marks) between rest others (hshorter.trans hbound) hothers
    ⟨hrest, refuses_joined hends hmarks⟩
  simp only [chain, steps_eq_ok_iff, pure_eq_ok_iff, Prod.mk.injEq]
  exact ⟨first, between, h _ _ _ hbound hfirst hbetween, others, rest, hread, rfl, rfl⟩

/-- A chain takes what its first condition takes. -/
theorem Chain.shrinks (h : Shrinks bound form) : Shrinks bound (Chain op form) := by
  intro text rest found hbound hchain
  obtain ⟨first, others, between, hfirst, hothers, -⟩ := hchain.exists_parts
  have hshorter := h _ _ _ hbound hfirst
  exact ((Joined.shrinks h).repeated (hshorter.trans hbound) hothers).trans_lt hshorter

end Chains

section Primaries

variable {found : Condition} {bound : Nat} {inner : Reader Condition}

/-- The characters that may come after a condition in a rule text: the parenthesis that closes its
group, or the first letter of `then`. -/
def conditionMarks : List Char :=
  [')', 't']

/-- The characters that may come after a part of a condition. -/
def primaryMarks : List Char :=
  initials .and ++ (initials .or ++ conditionMarks)

/-- Nothing that may come next would continue a number. -/
theorem Next.numberEnds {marks : List Char} (h : Next marks rest)
    (hmarks : marks.all (fun c => !c.isDigit && c != '.' && c != '-') = true) :
    NumberEnds rest := by
  intro c hc
  rcases h.head hc with hlayout | hmem
  · refine ⟨?_, ?_, ?_⟩
    · by_contra hdigit
      rw [isMark_of_isDigit (by simpa using hdigit)] at hlayout
      cases hlayout
    · rintro rfl
      exact absurd hlayout (by decide)
    · rintro rfl
      exact absurd hlayout (by decide)
  · simpa [and_assoc] using List.all_eq_true.1 hmarks c hmem

/-- No value starts with an equals sign. -/
theorem not_eq_sign_of_value {read : Value} (h : Spaced ValueForm text rest read) :
    '=' ∉ text.head? := by
  obtain ⟨hlayout, hread⟩ := h
  intro hhead
  obtain rfl := hlayout.eq_of_isMark hread.bare hhead (by decide)
  rcases hread.starts with hnumber | ⟨c, hc, hmem⟩
  · exact hnumber.not_head (by decide) hhead
  · obtain rfl : c = '=' := Option.some.inj (hc.symm.trans hhead)
    exact absurd hmem (by decide)

/-- A leaf with layout before it is a condition without connectives. -/
private theorem sound_leaf (hlayout : Layout text start) (h : leaf start = .ok (found, rest)) :
    Primary text rest found := by
  simp only [leaf, steps_eq_ok_iff, required_eq_ok_iff, pure_eq_ok_iff, Prod.mk.injEq] at h
  obtain ⟨typeKey, afterName, hname, op, afterOperator, hop, read, _, hread, rfl, rfl⟩ := h
  exact .leaf (.mk hlayout (name_eq_ok_iff.1 hname)) (sound_operator _ _ _ hop)
    (sound_value _ _ _ hread)

/-- What is read without a connective outside of parentheses has the form for it. -/
private theorem sound_primary (h : Sound inner ConditionForm) : Sound (primary inner) Primary := by
  intro text rest found hread
  simp only [primary, layout_eq_ok_iff, labelled_eq_ok_iff, choice_cons_eq_ok_iff,
    choice_singleton, steps_eq_ok_iff, required_eq_ok_iff, char_eq_ok_iff, pure_eq_ok_iff,
    Prod.mk.injEq] at hread
  obtain ⟨_, start, rfl, hread⟩ := hread
  rcases hread with ⟨_, inside, hopen, middle, after, hinside, _, _, hskip, _, _, hclose, rfl,
    rfl⟩ | ⟨-, hleaf⟩
  · exact .group (layout_of_skipLayout_eq hopen) (h _ _ _ hinside)
      (layout_of_skipLayout_eq (hskip.trans hclose))
  · exact sound_leaf (layout_skipLayout text) hleaf

/-- Such a condition is read one level of parentheses deeper than its inner one. -/
private theorem complete_primary (h : Complete bound inner ConditionForm (Next conditionMarks)) :
    Complete (bound + 1) (primary inner) Primary (Next primaryMarks) := by
  intro text rest found hbound hprimary hends
  simp only [primary, layout_eq_ok_iff, labelled_eq_ok_iff, choice_cons_eq_ok_iff,
    choice_singleton, steps_eq_ok_iff, required_eq_ok_iff, char_eq_ok_iff, pure_eq_ok_iff,
    Prod.mk.injEq]
  cases hprimary with
  | @leaf _ afterName afterOperator _ typeKey op read hname hoperator hvalue =>
    obtain @⟨_, start, _, _, hlayout, hname⟩ := hname
    obtain ⟨c, hc, hstart⟩ := hname.exists_head
    have hopen : Refuses (char '(') start := by
      refine (mild_char '(').refuses fun result hread => ?_
      rw [char_eq_ok_iff.1 hread] at hc
      cases hc
      cases hstart
    have hop := complete_operator _ _ _ _ (Nat.lt_succ_self _) hoperator
      (not_eq_sign_of_value hvalue)
    have hread := complete_value _ _ _ _ (Nat.lt_succ_self _) hvalue
      (hends.numberEnds (by decide))
    refine ⟨(), start, hlayout.eq_of_bare hname.bare, .inr ⟨hopen.bind, ?_⟩⟩
    simp only [leaf, steps_eq_ok_iff, required_eq_ok_iff, pure_eq_ok_iff, Prod.mk.injEq]
    exact ⟨typeKey, afterName, name_eq_ok_iff.2 hname, op, afterOperator, hop, read, rest, hread,
      rfl, rfl⟩
  | @group _ inside after _ _ hopen hinside hclose =>
    have hlength := hopen.length_le
    rw [List.length_cons] at hlength
    have hafter : Next conditionMarks after := hclose.next rfl (by decide) (by decide)
    have hinner := h inside after found (by omega) hinside hafter
    exact ⟨(), _, hopen.eq_of_bare (bare_cons (by decide)), .inl ⟨(), inside, rfl, found, after,
      hinner, (), _, hclose.eq_of_bare (bare_cons (by decide)), (), rest, rfl, rfl, rfl⟩⟩

/-- A part of a condition takes something from the text, whatever is nested in it. -/
theorem shrinks_primary (bound : Nat) : Shrinks bound Primary := by
  induction bound with
  | zero => intro text rest found hbound; omega
  | succ bound ih =>
    intro text rest found hbound hprimary
    cases hprimary with
    | leaf hname hoperator hvalue =>
      have hlength := hname.length_lt Name.length_lt
      have hlength' := hoperator.length_lt OperatorForm.length_lt
      have hlength'' := hvalue.length_lt ValueForm.length_lt
      omega
    | @group _ inside after _ _ hopen hinside hclose =>
      have hlength := hopen.length_le
      have hlength' := hclose.length_le
      rw [List.length_cons] at hlength hlength'
      have hshorter := Chain.shrinks (Chain.shrinks ih) inside after found (by omega) hinside
      omega

/-- The layout in front of a condition is that in front of its first part. -/
theorem conditionOver_eq (inner : Reader Condition) :
    conditionOver inner = chain .or ["OR", "or"] (chain .and ["AND", "and"] (primary inner)) := by
  funext text
  have hprimary : primary inner (skipLayout text) = primary inner text := by
    rw [primary, layout_bind, layout_bind, skipLayout_idem]
  have hconjunction : chain .and ["AND", "and"] (primary inner) (skipLayout text) =
      chain .and ["AND", "and"] (primary inner) text := steps_congr hprimary
  rw [conditionOver, layout_bind]
  exact steps_congr hconjunction

/-- What is read as a condition has its form. -/
theorem sound_conditionWithin (bound : Nat) : Sound (conditionWithin bound) ConditionForm := by
  induction bound with
  | zero =>
    intro text rest found h
    cases h
  | succ bound ih =>
    intro text rest found h
    rw [conditionWithin, conditionOver_eq] at h
    exact sound_chain (sound_chain (sound_primary ih)) _ _ _ h

/-- A condition is read up to where no mark goes on with it. -/
theorem complete_conditionWithin (bound : Nat) :
    Complete bound (conditionWithin bound) ConditionForm (Next conditionMarks) := by
  induction bound with
  | zero => intro text rest found hbound; omega
  | succ bound ih =>
    intro text rest found hbound hcondition hends
    rw [conditionWithin, conditionOver_eq]
    have hshrinks := shrinks_primary (bound + 1)
    exact complete_chain (complete_chain (complete_primary ih) hshrinks (by decide))
      (Chain.shrinks hshrinks) (by decide) _ _ _ hbound hcondition hends

end Primaries

end Bookkeeping.RuleText
