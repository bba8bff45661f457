import Bookkeeping.Proofs.RuleText.Condition

/-!
# Rule texts, read

Which rules a whole text is read as: those that it writes by the grammar, and only those. What may
follow each part of a rule tells the readers where that part ends, so the grammar leaves them no
choice.
-/

namespace Bookkeeping.RuleText

open Reader

variable {text start rest : List Char} {bound : Nat}

section Actions

/-- What is read as an action has its form. -/
private theorem sound_action : Sound action ActionForm := by
  intro text rest found h
  simp only [action, steps_eq_ok_iff, layout_eq_ok_iff, labelled_eq_ok_iff, required_eq_ok_iff,
    pure_eq_ok_iff, Prod.mk.injEq] at h
  obtain ⟨_, start, rfl, typeKey, afterName, hname, read, _, hread, rfl, rfl⟩ := h
  exact .mk (.mk (layout_skipLayout text) (name_eq_ok_iff.1 hname)) (sound_value _ _ _ hread)

/-- An action is read up to where its value ends. -/
private theorem complete_action (bound : Nat) : Complete bound action ActionForm NumberEnds := by
  rintro text rest found hbound @⟨_, afterName, _, typeKey, read, ⟨hlayout, hname⟩, hvalue⟩ hends
  have hread := complete_value _ _ _ _ (Nat.lt_succ_self _) hvalue hends
  simp only [action, steps_eq_ok_iff, layout_eq_ok_iff, labelled_eq_ok_iff, required_eq_ok_iff,
    pure_eq_ok_iff, Prod.mk.injEq]
  exact ⟨(), _, hlayout.eq_of_bare hname.bare, typeKey, afterName, name_eq_ok_iff.2 hname, read,
    rest, hread, rfl, rfl⟩

/-- An action takes its name at least. -/
theorem shrinks_action (bound : Nat) : Shrinks bound ActionForm := by
  rintro text rest found - ⟨hname, hvalue⟩
  have hlength := hname.length_lt Name.length_lt
  have hlength' := hvalue.length_lt ValueForm.length_lt
  omega

end Actions

section Options

/-- What is read as an option has its form. -/
private theorem sound_ruleOption : Sound ruleOption OptionForm := by
  intro text rest found h
  simp only [ruleOption, steps_eq_ok_iff, layout_eq_ok_iff, labelled_eq_ok_iff,
    required_eq_ok_iff, choice_cons_eq_ok_iff, choice_singleton, keyword_eq_ok_iff,
    pure_eq_ok_iff, Prod.mk.injEq] at h
  obtain ⟨_, start, rfl, h⟩ := h
  rcases h with ⟨_, afterWord, hword, _, _, rfl, date, _, hdate, rfl, rfl⟩ |
    ⟨-, _, _, hword, rfl, rfl⟩
  · exact .effective (layout_skipLayout text) hword
      (.mk (layout_skipLayout afterWord) (date_eq_ok_iff.1 hdate))
  · exact .inactive (layout_skipLayout text) hword

/-- An option is read whatever follows it. -/
private theorem complete_ruleOption (bound : Nat) (ends : List Char → Prop) :
    Complete bound ruleOption OptionForm ends := by
  intro text rest found _ hoption _
  simp only [ruleOption, steps_eq_ok_iff, layout_eq_ok_iff, labelled_eq_ok_iff,
    required_eq_ok_iff, choice_cons_eq_ok_iff, choice_singleton, keyword_eq_ok_iff,
    pure_eq_ok_iff, Prod.mk.injEq]
  cases hoption with
  | @effective _ start afterWord _ date hlayout hword hdate =>
    obtain ⟨hspace, hdate⟩ := hdate
    have hhead : start.head? = some 'e' := hword.head? (by decide)
    have hbare : Bare start := bare_of_head hhead (by decide)
    exact ⟨(), start, hlayout.eq_of_bare hbare, .inl ⟨(), afterWord, hword, (), _,
      hspace.eq_of_bare hdate.numberStarts.bare, date, rest, date_eq_ok_iff.2 hdate, rfl, rfl⟩⟩
  | @inactive _ start _ hlayout hword =>
    have hhead : start.head? = some 'i' := hword.head? (by decide)
    have hbare : Bare start := bare_of_head hhead (by decide)
    have heffective : Refuses (keyword "effective") start :=
      refuses_keyword (c := 'e') rfl (by rw [hhead]; decide)
    exact ⟨(), start, hlayout.eq_of_bare hbare, .inr ⟨heffective.bind, (), rest, hword, rfl, rfl⟩⟩

/-- An option takes its keyword at least. -/
theorem shrinks_ruleOption (bound : Nat) : Shrinks bound OptionForm := by
  intro text rest found _ hoption
  cases hoption with
  | effective hlayout hword hdate =>
    have hlength := hlayout.length_le
    have hlength' := hword.length_le
    have hlength'' := hdate.length_lt fun h => (ValueForm.date h).length_lt
    omega
  | inactive hlayout hword =>
    have hlength := hlayout.length_le
    have hlength' := hword.length_lt (by decide)
    omega

/-- Options are read between parentheses, with commas between them. -/
private theorem ruleOptions_eq_ok_iff {options : List RuleOption} :
    ruleOptions text = .ok (options, rest) ↔ ∃ inside after, skipLayout text = '(' :: inside ∧
      separated (mark ',') ruleOption inside = .ok (options, after) ∧
        skipLayout after = ')' :: rest := by
  simp only [ruleOptions, steps_eq_ok_iff, mark_eq_ok_iff, layout_eq_ok_iff, required_eq_ok_iff,
    char_eq_ok_iff, pure_eq_ok_iff, Prod.mk.injEq]
  constructor
  · rintro ⟨_, inside, hopen, _, after, hlisted, _, _, hskip, _, _, hclose, rfl, rfl⟩
    exact ⟨inside, after, hopen, hlisted, hskip.trans hclose⟩
  · rintro ⟨inside, after, hopen, hlisted, hclose⟩
    exact ⟨(), inside, hopen, options, after, hlisted, (), _, hclose, (), rest, rfl, rfl, rfl⟩

/-- What is read as options has their form; none at all are an empty list. -/
private theorem sound_options {options : Option (List RuleOption)}
    (h : option ruleOptions text = .ok (options, rest)) :
    OptionsForm text rest (options.getD []) := by
  rcases option_eq_ok_iff.1 h with ⟨found, _, hread, hsame⟩ | ⟨-, hsame⟩
  · obtain ⟨rfl, rfl⟩ := Prod.mk.inj hsame
    obtain ⟨inside, after, hopen, hlisted, hclose⟩ := ruleOptions_eq_ok_iff.1 hread
    exact .some (layout_of_skipLayout_eq hopen) (sound_ruleOption.listed _ _ _ hlisted)
      (layout_of_skipLayout_eq hclose)
  · obtain ⟨rfl, rfl⟩ := Prod.mk.inj hsame
    exact .none text

/-- The options of a rule, or none, are read where a colon follows. -/
theorem complete_options {options : List RuleOption} (h : OptionsForm text rest options)
    (hends : Next [':'] rest) :
    ∃ read, option ruleOptions text = .ok (read, rest) ∧ read.getD [] = options := by
  cases h with
  | none =>
    have hrefuses : Refuses ruleOptions text := (refuses_mark hends (by decide)).bind
    exact ⟨none, option_eq_ok_iff.2 (.inr ⟨hrefuses, rfl⟩), rfl⟩
  | @some _ inside after _ _ hopen hlisted hclose =>
    have hafter : Next [')'] after := hclose.next rfl (by decide) (by decide)
    have hread := (complete_ruleOption (inside.length + 1) (Next [',', ')'])).listed
      (shrinks_ruleOption _) (by decide) inside after options (Nat.lt_succ_self _) hlisted hafter
    have hoptions := ruleOptions_eq_ok_iff.2 ⟨inside, after, hopen.eq_of_bare
      (bare_cons (by decide)), hread, hclose.eq_of_bare (bare_cons (by decide))⟩
    exact ⟨some options, option_eq_ok_iff.2 (.inl ⟨options, rest, hoptions, rfl⟩), rfl⟩

/-- Of the options the last first day counts, and one is enough to switch the rule off. -/
theorem foldl_set (options : List RuleOption) (rule : Rule) :
    options.foldl RuleOption.set rule =
      { rule with
        active := rule.active && !options.any RuleOption.isInactive
        effectiveDate := (options.filterMap RuleOption.date?).getLast?.or rule.effectiveDate } := by
  induction options generalizing rule with
  | nil => simp
  | cons option rest ih =>
    rw [List.foldl_cons, ih]
    cases option with
    | effective date =>
      simp [RuleOption.set, Rule.effectiveFrom, RuleOption.isInactive, RuleOption.date?,
        List.getLast?_cons]
    | inactive =>
      simp [RuleOption.set, Rule.inactive, RuleOption.isInactive, RuleOption.date?]

end Options

section Rules

/-- What is read before the actions has the form of a condition, or there is none. -/
private theorem sound_when {conditions : Option Condition}
    (h : option whenPart text = .ok (conditions, rest)) :
    WhenForm text rest conditions.toList := by
  rcases option_eq_ok_iff.1 h with ⟨found, _, hread, hsame⟩ | ⟨-, hsame⟩
  · obtain ⟨rfl, rfl⟩ := Prod.mk.inj hsame
    simp only [whenPart, steps_eq_ok_iff, layout_eq_ok_iff, keyword_eq_ok_iff,
      required_eq_ok_iff] at hread
    obtain ⟨_, _, rfl, _, afterWord, hword, hcondition⟩ := hread
    exact .some (layout_skipLayout text) hword (sound_conditionWithin _ _ _ _ hcondition)
  · obtain ⟨rfl, rfl⟩ := Prod.mk.inj hsame
    exact .none text

/-- The conditions of a rule, or none, are read where `then` follows. -/
theorem complete_when {conditions : List Condition} (h : WhenForm text rest conditions)
    (hends : Next ['t'] rest) :
    ∃ read, option whenPart text = .ok (read, rest) ∧ read.toList = conditions := by
  cases h with
  | none =>
    have hkeyword : Refuses (keyword "when") (skipLayout text) :=
      refuses_keyword (c := 'w') rfl fun hhead => absurd (hends 'w' hhead) (by decide)
    have hrefuses : Refuses whenPart text := refuses_bind_of_ok rfl hkeyword.bind
    exact ⟨none, option_eq_ok_iff.2 (.inr ⟨hrefuses, rfl⟩), rfl⟩
  | @some _ start afterWord _ found hlayout hword hcondition =>
    have hhead : start.head? = some 'w' := hword.head? (by decide)
    have hbare : Bare start := bare_of_head hhead (by decide)
    have hread : condition afterWord = .ok (found, rest) :=
      complete_conditionWithin _ _ _ _ (Nat.lt_succ_self _) hcondition
        (hends.mono (List.subset_cons_self _ _))
    have hwhen : whenPart text = .ok (found, rest) := by
      simp only [whenPart, steps_eq_ok_iff, layout_eq_ok_iff, keyword_eq_ok_iff,
        required_eq_ok_iff]
      exact ⟨(), start, hlayout.eq_of_bare hbare, (), afterWord, hword, hread⟩
    exact ⟨some found, option_eq_ok_iff.2 (.inl ⟨found, rest, hwhen, rfl⟩), rfl⟩

/-- A title is a quoted text or a name. -/
private theorem title_eq_ok_iff {title : String} :
    choice [quoted, name] text = .ok (title, rest) ↔ TitleForm text rest title := by
  rw [choice_cons_eq_ok_iff, choice_singleton, quoted_eq_ok_iff, name_eq_ok_iff]
  constructor
  · rintro (h | ⟨-, h⟩)
    · exact .quoted h
    · exact .name h
  · intro h
    cases h with
    | quoted h => exact .inl h
    | name h =>
      obtain ⟨c, hc, hstart⟩ := h.exists_head
      refine .inr ⟨refuses_quoted fun hhead => ?_, h⟩
      obtain rfl : c = '"' := Option.some.inj (hc.symm.trans hhead)
      cases hstart

/-- A title starts with no layout. -/
private theorem TitleForm.bare {title : String} (h : TitleForm text rest title) : Bare text := by
  cases h with
  | quoted h =>
    obtain ⟨-⟩ := h
    exact bare_cons (by decide)
  | name h => exact h.bare

/-- A rule is read part by part, and its parts make it up. -/
private theorem rule_eq_ok_iff {found : Rule} :
    rule text = .ok (found, rest) ↔
      ∃ afterWord title afterTitle options afterOptions afterColon conditions afterWhen afterThen
        actions, Word "rule" (skipLayout text) afterWord ∧
          TitleForm (skipLayout afterWord) afterTitle title ∧
          option ruleOptions afterTitle = .ok (options, afterOptions) ∧
          skipLayout afterOptions = ':' :: afterColon ∧
          option whenPart afterColon = .ok (conditions, afterWhen) ∧
          Word "then" (skipLayout afterWhen) afterThen ∧
          separated (mark ',') action afterThen = .ok (actions, rest) ∧
          found = ruleOf title (options.getD []) conditions.toList actions := by
  simp only [rule, steps_eq_ok_iff, layout_eq_ok_iff, keyword_eq_ok_iff, labelled_eq_ok_iff,
    required_eq_ok_iff, char_eq_ok_iff, pure_eq_ok_iff, title_eq_ok_iff, Prod.mk.injEq]
  constructor
  · rintro ⟨_, _, rfl, _, afterWord, hword, _, _, rfl, title, afterTitle, htitle, options,
      afterOptions, hoptions, _, _, rfl, _, afterColon, hcolon, conditions, afterWhen, hwhen, _, _,
      rfl, _, afterThen, hthen, actions, _, hactions, rfl, rfl⟩
    refine ⟨afterWord, title, afterTitle, options, afterOptions, afterColon, conditions, afterWhen,
      afterThen, actions, hword, htitle, hoptions, hcolon, hwhen, hthen, hactions, ?_⟩
    rw [foldl_set, ruleOf]
    simp
  · rintro ⟨afterWord, title, afterTitle, options, afterOptions, afterColon, conditions, afterWhen,
      afterThen, actions, hword, htitle, hoptions, hcolon, hwhen, hthen, hactions, rfl⟩
    refine ⟨(), _, rfl, (), afterWord, hword, (), _, rfl, title, afterTitle, htitle, options,
      afterOptions, hoptions, (), _, rfl, (), afterColon, hcolon, conditions, afterWhen, hwhen, (),
      _, rfl, (), afterThen, hthen, actions, rest, hactions, ?_, rfl⟩
    rw [foldl_set, ruleOf]
    simp

/-- What is read as a rule has its form. -/
theorem sound_rule : Sound rule RuleForm := by
  intro text rest found h
  obtain ⟨afterWord, title, afterTitle, options, afterOptions, afterColon, conditions, afterWhen,
    afterThen, actions, hword, htitle, hoptions, hcolon, hwhen, hthen, hactions, rfl⟩ :=
    rule_eq_ok_iff.1 h
  exact .mk (layout_skipLayout text) hword (.mk (layout_skipLayout afterWord) htitle)
    (sound_options hoptions) (layout_of_skipLayout_eq hcolon) (sound_when hwhen)
    (layout_skipLayout afterWhen) hthen (sound_action.listed _ _ _ hactions)

/-- A rule is read up to where the text ends or another rule starts. -/
theorem complete_rule (bound : Nat) : Complete bound rule RuleForm (Next ['r']) := by
  intro text rest found _ hrule hends
  obtain @⟨_, start, afterWord, afterTitle, afterOptions, afterColon, afterWhen, beforeThen,
    afterThen, _, title, options, conditions, actions, hlayout, hword, ⟨hspace, htitle⟩, hoptions,
    hcolon, hwhen, hlast, hthen, hactions⟩ := hrule
  have hstart : Bare start := bare_of_head (hword.head? (by decide)) (by decide)
  have hthenHead : beforeThen.head? = some 't' := hthen.head? (by decide)
  obtain ⟨readOptions, hreadOptions, rfl⟩ :=
    complete_options hoptions (hcolon.next rfl (by decide) (by decide))
  obtain ⟨readConditions, hreadConditions, rfl⟩ :=
    complete_when hwhen (hlast.next hthenHead (by decide) (by decide))
  -- a number in the last action ends before the word `rule` or the end of the text
  have hnumber : ∀ rest, Next [',', 'r'] rest → NumberEnds rest :=
    fun _ h => h.numberEnds (by decide)
  have hreadActions := ((complete_action (afterThen.length + 1)).mono hnumber).listed
    (shrinks_action _) (by decide) afterThen rest actions (Nat.lt_succ_self _) hactions hends
  refine rule_eq_ok_iff.2 ⟨afterWord, title, afterTitle, readOptions, afterOptions, afterColon,
    readConditions, afterWhen, afterThen, actions, ?_, ?_, hreadOptions,
    hcolon.eq_of_bare (bare_cons (by decide)), hreadConditions, ?_, hreadActions, rfl⟩
  · rw [hlayout.eq_of_bare hstart]
    exact hword
  · rw [hspace.eq_of_bare htitle.bare]
    exact htitle
  · rw [hlast.eq_of_bare (bare_of_head hthenHead (by decide))]
    exact hthen

/-- A rule starts with its keyword. -/
theorem RuleForm.next {found : Rule} (h : RuleForm text rest found) : Next ['r'] text := by
  cases h with
  | mk hlayout hword => exact hlayout.next (hword.head? (by decide)) (by decide) (by decide)

/-- Options only take from a text. -/
private theorem OptionsForm.length_le {options : List RuleOption}
    (h : OptionsForm text rest options) :
    rest.length ≤ text.length := by
  cases h with
  | none => exact Nat.le_refl _
  | @some _ inside after _ _ hopen hlisted hclose =>
    have hlength := hopen.length_le
    have hlength' := hclose.length_le
    have hlength'' := (shrinks_ruleOption (inside.length + 1)).listed inside after options
      (Nat.lt_succ_self _) hlisted
    rw [List.length_cons] at hlength hlength'
    omega

/-- A condition only takes from a text. -/
private theorem WhenForm.length_le {conditions : List Condition}
    (h : WhenForm text rest conditions) :
    rest.length ≤ text.length := by
  cases h with
  | none => exact Nat.le_refl _
  | @some _ start afterWord _ found hlayout hword hcondition =>
    have hlength := hlayout.length_le
    have hlength' := hword.length_le
    have hlength'' := Chain.shrinks (Chain.shrinks (shrinks_primary (afterWord.length + 1)))
      afterWord rest found (Nat.lt_succ_self _) hcondition
    omega

/-- A title takes a character at least. -/
private theorem TitleForm.length_lt {title : String} (h : TitleForm text rest title) :
    rest.length < text.length := by
  cases h with
  | quoted h => exact (ValueForm.text h).length_lt
  | name h => exact h.length_lt

/-- A rule takes its keyword at least. -/
theorem shrinks_rule (bound : Nat) : Shrinks bound RuleForm := by
  intro text rest found _ hrule
  obtain @⟨_, _, _, _, _, _, _, _, afterThen, _, _, _, _, actions, hlayout, hword, htitle,
    hoptions, hcolon, hwhen, hlast, hthen, hactions⟩ := hrule
  have htext := hlayout.length_le
  have hafterWord := hword.length_le
  have hafterTitle := htitle.length_lt TitleForm.length_lt
  have hafterOptions := hoptions.length_le
  have hafterColon := hcolon.length_le
  have hafterWhen := hwhen.length_le
  have hbeforeThen := hlast.length_le
  have hafterThen := hthen.length_le
  have hrest := (shrinks_action (afterThen.length + 1)).listed _ _ actions (Nat.lt_succ_self _)
    hactions
  rw [List.length_cons] at hafterColon
  omega

/-- After a rule there is less text, also without the layout in front of the rule. -/
theorem length_lt_of_rule {found : Rule} (h : rule text = .ok (found, rest)) :
    rest.length < text.length :=
  shrinks_rule (text.length + 1) _ _ _ (Nat.lt_succ_self _) (sound_rule _ _ _ h)

/-- Rules are read one by one, up to where no further rule starts. -/
theorem rules_eq (text : List Char) :
    rules text = match rule text with
      | .error refusal => if refusal.final then .error refusal else .ok ([], skipLayout text)
      | .ok (first, rest) => (rules rest).map fun (others, last) => (first :: others, last) := by
  change (many rule text >>= fun step => .ok (step.1, skipLayout step.2)) = _
  rw [many]
  cases hrule : rule text with
  | error refusal =>
    dsimp only
    split <;> rfl
  | ok step =>
    obtain ⟨first, rest⟩ := step
    simp only [length_lt_of_rule hrule, if_true]
    change _ = (many rule rest >>= fun step => .ok (step.1, skipLayout step.2)).map _
    cases many rule rest <;> rfl

/-- Layout before a rule has no part in it. -/
private theorem rule_congr {other : List Char} (h : skipLayout text = skipLayout other) :
    rule text = rule other := by
  rw [rule, layout_bind, layout_bind, h]

/-- Layout in front of a text has no part in what is read from it. -/
theorem rules_congr {other : List Char} (h : skipLayout text = skipLayout other) :
    rules text = rules other := by
  rw [rules_eq, rules_eq other, rule_congr h, h]

/-- Rules are read one after the other, and behind them is nothing but layout. -/
theorem rules_eq_ok_iff {found : List Rule} :
    rules text = .ok (found, []) ↔ ∃ rest, many rule text = .ok (found, rest) ∧
      skipLayout rest = [] := by
  simp only [rules, steps_eq_ok_iff, layout_eq_ok_iff, pure_eq_ok_iff, Prod.mk.injEq]
  constructor
  · rintro ⟨_, rest, hmany, _, _, hskip, rfl, rfl⟩
    exact ⟨rest, hmany, hskip⟩
  · rintro ⟨rest, hmany, hskip⟩
    exact ⟨found, rest, hmany, (), [], hskip, rfl, rfl⟩

/-- A text is parsed when its rules take all of it. -/
theorem parse_eq_ok_iff_rules {text : String} {found : List Rule} :
    parse text = .ok found ↔ rules text.toList = .ok (found, []) := by
  unfold parse
  dsimp only
  split
  · rename_i hread
    rw [hread]
    simp
  · rename_i rest hne hread
    rw [hread]
    simp only [reduceCtorEq, Except.ok.injEq, Prod.mk.injEq, false_iff, not_and]
    exact fun _ => hne
  · rename_i hread
    rw [hread]
    simp

/-- A text is read as these rules exactly if it writes them. -/
theorem parse_eq_ok_iff (text : String) (found : List Rule) :
    parse text = .ok found ↔ FileForm text.toList found := by
  rw [parse_eq_ok_iff_rules, rules_eq_ok_iff]
  constructor
  · rintro ⟨rest, hmany, hskip⟩
    exact ⟨rest, sound_rule.many _ _ _ hmany, layout_of_skipLayout_eq hskip⟩
  · rintro ⟨rest, hrepeated, hlast⟩
    have hskip : skipLayout rest = [] := hlast.skipLayout_eq.trans (by rw [skipLayout])
    have hends : Next ['r'] rest := by
      intro c hc
      rw [hskip] at hc
      cases hc
    -- nothing is left that a further rule could be read from
    have hrefuses : Refuses rule rest := by
      have hkeyword : Refuses (keyword "rule") (skipLayout rest) := by
        rw [hskip]
        exact refuses_keyword (c := 'r') rfl (by rintro ⟨⟩)
      exact refuses_bind_of_ok rfl hkeyword.bind
    have hread := (complete_rule (text.toList.length + 1)).many (shrinks_rule _)
      (fun _ _ _ => RuleForm.next) text.toList rest found (Nat.lt_succ_self _) hrepeated
      ⟨hends, hrefuses⟩
    exact ⟨rest, hread, hskip⟩

end Rules

end Bookkeeping.RuleText
