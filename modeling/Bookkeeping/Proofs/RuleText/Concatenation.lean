import Bookkeeping.Proofs.RuleText.Rule
import Mathlib

/-!
# Rule texts, one behind another

What the front of a text writes, it still writes when the text goes on behind the end of a line: no
comment and no name runs into the further lines, and no number either, since a number goes on in the
same line. So two rule texts with a line break between them write the rules of the first and then
those of the second.
-/

namespace Bookkeeping.RuleText

open Reader

variable {α : Type} {text rest more : List Char} {bound : Nat}

section Words

/-- Where a line ends it still ends when a line end follows. -/
private theorem LineEnds.append (h : LineEnds rest) (hmore : LineEnds more) :
    LineEnds (rest ++ more) := by
  cases h with
  | newline rest => exact .newline (rest ++ more)
  | carriageReturn rest => exact .carriageReturn (rest ++ more)
  | textEnd => exact hmore

/-- No name goes on at the end of a line. -/
private theorem LineEnds.nameEnds (h : LineEnds more) : NameEnds more := by
  cases h with
  | newline => rintro _ ⟨⟩; rfl
  | carriageReturn => rintro _ ⟨⟩; rfl
  | textEnd => rintro _ ⟨⟩

/-- A name that ends still ends when a line end follows. -/
private theorem NameEnds.append (h : NameEnds rest) (hmore : LineEnds more) :
    NameEnds (rest ++ more) := by
  cases rest with
  | nil => exact hmore.nameEnds
  | cons c rest => exact h

/-- A comment that the text ends in ends with its line when the text goes on. -/
theorem Layout.append (h : Layout text rest) (hmore : LineEnds more) :
    Layout (text ++ more) (rest ++ more) := by
  induction h with
  | nothing rest => exact .nothing (rest ++ more)
  | blank hc hrest ih => exact .blank hc ih
  | comment hcomment hends hrest ih =>
    rw [List.cons_append, List.append_assoc]
    exact .comment hcomment (hends.append hmore) ih

/-- A word stands before the further text as well. -/
private theorem Word.append {word : String} (h : Word word text rest) (hmore : LineEnds more) :
    Word word (text ++ more) (rest ++ more) :=
  ⟨by rw [h.1, List.append_assoc], h.2.append hmore⟩

private theorem Name.append {found : String} (h : Name text rest found) (hmore : LineEnds more) :
    Name (text ++ more) (rest ++ more) found := by
  obtain ⟨hc, hfollowing, hends⟩ := h
  rw [List.cons_append, List.append_assoc]
  exact .mk hc hfollowing (hends.append hmore)

end Words

section Values

/-- A quoted text has its end, whatever follows. -/
private theorem QuotedRest.append {found : List Char} (h : QuotedRest text rest found) :
    QuotedRest (text ++ more) (rest ++ more) found := by
  induction h with
  | close rest => exact .close (rest ++ more)
  | escape c hfound ih => exact .escape c ih
  | plain hquote hbackslash hfound ih => exact .plain hquote hbackslash ih

private theorem Quoted.append {found : String} (h : Quoted text rest found) :
    Quoted (text ++ more) (rest ++ more) found := by
  obtain ⟨hfound⟩ := h
  exact .mk hfound.append

private theorem DateForm.append {date : Date} (h : DateForm text rest date) :
    DateForm (text ++ more) (rest ++ more) date := by
  obtain ⟨hyear, hmonth, hday, year_eq, month_eq, day_eq⟩ := h
  simp only [List.append_assoc, List.cons_append]
  exact .mk hyear hmonth hday year_eq month_eq day_eq

private theorem DecimalForm.append {x : Binary64} (h : DecimalForm text rest x) :
    DecimalForm (text ++ more) (rest ++ more) x := by
  cases h with
  | unsigned hwhole hfraction hx =>
    simp only [List.append_assoc, List.cons_append]
    exact .unsigned hwhole hfraction hx
  | minus hwhole hfraction hx =>
    simp only [List.append_assoc, List.cons_append]
    exact .minus hwhole hfraction hx

/-- An integer goes on with nothing that starts at the end of a line. -/
private theorem IntegerForm.append {n : Int64} (h : IntegerForm text rest n) :
    IntegerForm (text ++ more) (rest ++ more) n := by
  cases h with
  | zero => exact .zero (rest ++ more)
  | unsigned hdigits hn =>
    rw [List.append_assoc]
    exact .unsigned hdigits hn
  | plus hdigits hn =>
    rw [List.cons_append, List.append_assoc]
    exact .plus hdigits hn
  | minus hdigits hn =>
    rw [List.cons_append, List.append_assoc]
    exact .minus hdigits hn

/-- A value stands before the further text as well. -/
private theorem ValueForm.append {found : Value} (h : ValueForm text rest found)
    (hmore : LineEnds more) :
    ValueForm (text ++ more) (rest ++ more) found := by
  cases h with
  | text h => exact .text h.append
  | date h => exact .date h.append
  | true h => exact .true (h.append hmore)
  | false h => exact .false (h.append hmore)
  | decimal h => exact .decimal h.append
  | int h => exact .int h.append

private theorem OperatorForm.append {op : Operator} (h : OperatorForm text rest op)
    (hmore : LineEnds more) : OperatorForm (text ++ more) (rest ++ more) op := by
  cases h with
  | like h => exact .like (h.imp (·.append hmore) (·.append hmore))
  | sign hop rest =>
    rw [List.append_assoc]
    exact .sign hop (rest ++ more)

end Values

section Combinations

variable {form : Form α} {found : α}

/-- What stands behind layout stands there before the further text as well. -/
private theorem Spaced.append (h : Spaced form text rest found) (hmore : LineEnds more)
    (hform : ∀ {start}, form start rest found → form (start ++ more) (rest ++ more) found) :
    Spaced form (text ++ more) (rest ++ more) found := by
  obtain ⟨hlayout, hfound⟩ := h
  exact .mk (hlayout.append hmore) (hform hfound)

/-- What is written in texts shorter than a bound is still written when these go on. -/
def Extends (bound : Nat) (more : List Char) (form : Form α) : Prop :=
  ∀ text rest found, text.length < bound → form text rest found →
    form (text ++ more) (rest ++ more) found

private theorem Extends.marked (h : Extends bound more form) (hmore : LineEnds more) (c : Char) :
    Extends bound more (Marked c form) := by
  rintro text rest found hbound ⟨hmark, hfound⟩
  have hlength := hmark.length_le
  rw [List.length_cons] at hlength
  exact .mk (hmark.append hmore) (h _ _ _ (by omega) hfound)

/-- Each of the repeated things stands before the further text. -/
private theorem Extends.repeated (h : Extends bound more form) (hshrinks : Shrinks bound form) :
    Extends bound more (Repeated form) := by
  intro text rest found hbound hrepeated
  induction hrepeated with
  | nil rest => exact .nil (rest ++ more)
  | cons hfirst hothers ih =>
    exact .cons (h _ _ _ hbound hfirst) (ih ((hshrinks _ _ _ hbound hfirst).trans hbound))

private theorem Extends.listed (h : Extends bound more form) (hmore : LineEnds more)
    (hshrinks : Shrinks bound form) : Extends bound more (Listed form) := by
  rintro text rest found hbound ⟨hfirst, hothers⟩
  exact .mk (h _ _ _ hbound hfirst) ((h.marked hmore ',').repeated (hshrinks.marked ',') _ _ _
    ((hshrinks _ _ _ hbound hfirst).trans hbound) hothers)

end Combinations

section Conditions

variable {form : Form Condition} {op : Connective}

private theorem Extends.joined (h : Extends bound more form) (hmore : LineEnds more) :
    Extends bound more (Joined op form) := by
  rintro _ _ _ hbound @⟨text, start, between, rest, found, hlayout, hword, hfound⟩
  have hstart := hlayout.length_le
  have hbetween : between.length ≤ start.length := hword.elim Word.length_le Word.length_le
  exact .mk (hlayout.append hmore) (hword.imp (·.append hmore) (·.append hmore))
    (h _ _ _ (by omega) hfound)

/-- A chain stands before the further text, condition by condition. -/
private theorem Extends.chain (h : Extends bound more form) (hmore : LineEnds more)
    (hshrinks : Shrinks bound form) : Extends bound more (Chain op form) := by
  intro text rest found hbound hchain
  cases hchain with
  | alone hfound => exact .alone (h _ _ _ hbound hfound)
  | joined hfirst hothers =>
    exact .joined (h _ _ _ hbound hfirst) ((h.joined hmore).repeated (Joined.shrinks hshrinks) _ _ _
      ((hshrinks _ _ _ hbound hfirst).trans hbound) hothers)

private theorem Extends.condition (h : Extends bound more Primary) (hmore : LineEnds more) :
    Extends bound more ConditionForm :=
  have hshrinks := shrinks_primary bound
  (h.chain hmore hshrinks).chain hmore (Chain.shrinks hshrinks)

/-- The parts of a condition are nested no deeper than the text is long. -/
theorem extends_primary (hmore : LineEnds more) (bound : Nat) : Extends bound more Primary := by
  induction bound with
  | zero => intro text rest found hbound; omega
  | succ bound ih =>
    intro text rest found hbound hprimary
    cases hprimary with
    | leaf hname hoperator hvalue =>
      exact .leaf (hname.append hmore (·.append hmore)) (hoperator.append hmore (·.append hmore))
        (hvalue.append hmore (·.append hmore))
    | group hopen hinside hclose =>
      have hlength := hopen.length_le
      rw [List.length_cons] at hlength
      exact .group (hopen.append hmore) (ih.condition hmore _ _ _ (by omega) hinside)
        (hclose.append hmore)

end Conditions

section Rules

private theorem extends_action (hmore : LineEnds more) (bound : Nat) :
    Extends bound more ActionForm := by
  rintro text rest found - ⟨hname, hvalue⟩
  exact .mk (hname.append hmore (·.append hmore)) (hvalue.append hmore (·.append hmore))

private theorem extends_ruleOption (hmore : LineEnds more) (bound : Nat) :
    Extends bound more OptionForm := by
  intro text rest found _ hoption
  cases hoption with
  | effective hlayout hword hdate =>
    exact .effective (hlayout.append hmore) (hword.append hmore) (hdate.append hmore (·.append))
  | inactive hlayout hword => exact .inactive (hlayout.append hmore) (hword.append hmore)

private theorem OptionsForm.append {options : List RuleOption} (h : OptionsForm text rest options)
    (hmore : LineEnds more) : OptionsForm (text ++ more) (rest ++ more) options := by
  cases h with
  | none => exact .none _
  | some hopen hlisted hclose =>
    exact .some (hopen.append hmore) ((extends_ruleOption hmore _).listed hmore
      (shrinks_ruleOption _) _ _ _ (Nat.lt_succ_self _) hlisted) (hclose.append hmore)

private theorem WhenForm.append {conditions : List Condition} (h : WhenForm text rest conditions)
    (hmore : LineEnds more) : WhenForm (text ++ more) (rest ++ more) conditions := by
  cases h with
  | none => exact .none _
  | some hlayout hword hcondition =>
    exact .some (hlayout.append hmore) (hword.append hmore)
      ((extends_primary hmore _).condition hmore _ _ _ (Nat.lt_succ_self _) hcondition)

private theorem TitleForm.append {title : String} (h : TitleForm text rest title)
    (hmore : LineEnds more) : TitleForm (text ++ more) (rest ++ more) title := by
  cases h with
  | quoted h => exact .quoted h.append
  | name h => exact .name (h.append hmore)

/-- A rule stands before the further text, part by part. -/
private theorem extends_rule (hmore : LineEnds more) (bound : Nat) :
    Extends bound more RuleForm := by
  rintro text rest found - ⟨hlayout, hword, htitle, hoptions, hcolon, hwhen, hlast, hthen, hactions⟩
  exact .mk (hlayout.append hmore) (hword.append hmore) (htitle.append hmore (·.append hmore))
    (hoptions.append hmore) (hcolon.append hmore) (hwhen.append hmore) (hlast.append hmore)
    (hthen.append hmore) ((extends_action hmore _).listed hmore (shrinks_action _) _ _ _
      (Nat.lt_succ_self _) hactions)

/-- Rules that the front of a text writes are read first, where a further rule or none follows. -/
theorem rules_eq_map {found : List Rule} (h : Repeated RuleForm text rest found)
    (hrest : Next ['r'] rest) :
    rules text = (rules rest).map fun (others, last) => (found ++ others, last) := by
  induction h with
  | nil rest => cases rules rest <;> rfl
  | @cons text between rest first others hfirst hothers ih =>
    have hbetween : Next ['r'] between := by
      cases hothers with
      | nil => exact hrest
      | cons hnext _ => exact hnext.next
    have hread : rule text = .ok (first, between) :=
      complete_rule (text.length + 1) text between first (Nat.lt_succ_self _) hfirst hbetween
    rw [rules_eq, hread]
    dsimp only
    rw [ih hrest]
    cases rules rest <;> rfl

/-- What is read as rules has the form of a file. -/
private theorem fileForm_of_rules {found : List Rule} (h : rules text = .ok (found, [])) :
    FileForm text found := by
  obtain ⟨rest, hmany, hskip⟩ := rules_eq_ok_iff.1 h
  exact ⟨rest, sound_rule.many _ _ _ hmany, layout_of_skipLayout_eq hskip⟩

/-- A text of rules starts with a rule, or there is nothing in it. -/
theorem FileForm.next {found : List Rule} (h : FileForm text found) : Next ['r'] text := by
  obtain ⟨rest, hrepeated, hlast⟩ := h
  cases hrepeated with
  | nil =>
    intro c hc
    rw [hlast.skipLayout_eq, skipLayout] at hc
    cases hc
  | cons hfirst _ => exact hfirst.next

/-- Behind a text of rules the rules of further lines are read. -/
theorem FileForm.rules_append {found : List Rule} (h : FileForm text found)
    (hmore : LineEnds more) (hnext : Next ['r'] more) :
    rules (text ++ more) = (rules more).map fun (others, last) => (found ++ others, last) := by
  obtain ⟨rest, hrepeated, hlast⟩ := h
  have hextended : Repeated RuleForm (text ++ more) (rest ++ more) found :=
    (extends_rule hmore _).repeated (shrinks_rule _) _ _ _ (Nat.lt_succ_self _) hrepeated
  -- what is left of the text is layout in front of the further lines
  have hskip : skipLayout (rest ++ more) = skipLayout more := (hlast.append hmore).skipLayout_eq
  have hrest : Next ['r'] (rest ++ more) := by
    rw [Next, hskip]
    exact hnext
  rw [rules_eq_map hextended hrest, rules_congr hskip]

/-- Two texts of rules with a line break between them are a text of the rules of both. -/
theorem parse_append_newline (first second : String) (firstRules secondRules : List Rule)
    (hfirst : parse first = .ok firstRules) (hsecond : parse second = .ok secondRules) :
    parse (first ++ "\n" ++ second) = .ok (firstRules ++ secondRules) := by
  rw [parse_eq_ok_iff_rules] at hfirst hsecond ⊢
  have htext : (first ++ "\n" ++ second).toList = first.toList ++ '\n' :: second.toList := by
    simp [String.toList_append]
  have hnewline : Layout ('\n' :: second.toList) second.toList := .blank rfl (.nothing _)
  have hmore : rules ('\n' :: second.toList) = .ok (secondRules, []) :=
    (rules_congr hnewline.skipLayout_eq).trans hsecond
  rw [htext, (fileForm_of_rules hfirst).rules_append (.newline _) (fileForm_of_rules hmore).next,
    hmore]
  rfl

/-- The last comment of a text ends with the line break that is put between the texts. -/
theorem parse_append_newline_comment :
    parse "rule a: then type 1 # one" = .ok [ruleOf "a" [] [] [⟨"type", .int 1⟩]] ∧
      parse "rule b: then type 2" = .ok [ruleOf "b" [] [] [⟨"type", .int 2⟩]] ∧
        parse ("rule a: then type 1 # one" ++ "\n" ++ "rule b: then type 2") =
          .ok [ruleOf "a" [] [] [⟨"type", .int 1⟩], ruleOf "b" [] [] [⟨"type", .int 2⟩]] := by
  have hfirst : parse "rule a: then type 1 # one" = .ok [ruleOf "a" [] [] [⟨"type", .int 1⟩]] := by
    cbv
  have hsecond : parse "rule b: then type 2" = .ok [ruleOf "b" [] [] [⟨"type", .int 2⟩]] := by
    cbv
  exact ⟨hfirst, hsecond, parse_append_newline _ _ _ _ hfirst hsecond⟩

end Rules

end Bookkeeping.RuleText
