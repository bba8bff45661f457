import Bookkeeping.Proofs.RuleText.Rule
import Mathlib.Data.List.Induction

/-!
# Places of mistakes

A reader only moves on, so the place where it stops is in the text, and the line and the column of a
mistake are found by going through the text up to this place. Lines in front of a rule text that
hold nothing but blanks and comments change neither its rules nor its mistakes; these stand so many
lines further down.
-/

namespace Bookkeeping.RuleText

variable {α β : Type}

namespace Reader

/-- The text from the place where a reader stands when it has read something or refuses. -/
def ahead : Except Refusal (α × List Char) → List Char
  | .ok (_, rest) => rest
  | .error refusal => refusal.rest

/-- The reader only moves on: what is ahead of it is an end of the text. -/
def Forward (reader : Reader α) : Prop :=
  ∀ text, ahead (reader text) <:+ text

/-- A change of what is read does not move the reader. -/
theorem ahead_map_suffix {change : α × List Char → β × List Char}
    (hchange : ∀ step, (change step).2 = step.2) {result : Except Refusal (α × List Char)}
    {text : List Char} (h : ahead result <:+ text) : ahead (result.map change) <:+ text := by
  cases result with
  | error refusal => exact h
  | ok step =>
    change (change step).2 <:+ text
    rw [hchange]
    exact h

variable {reader first second : Reader α}

/-- Where a reader stands, told of what comes of it. -/
private theorem Forward.of_eq (h : Forward reader) {text : List Char}
    {result : Except Refusal (α × List Char)} (hreader : reader text = result) :
    ahead result <:+ text :=
  hreader ▸ h text

section Combinations

private theorem forward_pure (found : α) : Forward (pure found : Reader α) :=
  fun text => List.suffix_refl text

/-- Two steps move on when each does. -/
private theorem Forward.bind {next : α → Reader β} (h : Forward reader)
    (hnext : ∀ found, Forward (next found)) : Forward (reader >>= next) := by
  intro text
  change ahead ((reader text) >>= fun step => next step.1 step.2) <:+ text
  cases hreader : reader text with
  | error refusal => exact h.of_eq hreader
  | ok step => exact (hnext step.1 step.2).trans (h.of_eq hreader)

/-- A choice of two moves on, since the second starts where the first did. -/
private theorem Forward.orElse (hfirst : Forward first) (hsecond : Forward second) :
    Forward (orElse first second) := by
  intro text
  unfold Reader.orElse
  cases hreader : first text with
  | ok found => exact hfirst.of_eq hreader
  | error refusal =>
    dsimp only
    split
    · exact hfirst.of_eq hreader
    · exact hsecond text

/-- An option moves on, or stays where it started. -/
private theorem Forward.option (h : Forward reader) : Forward (option reader) := by
  intro text
  unfold Reader.option
  cases hreader : reader text with
  | ok found => exact h.of_eq hreader
  | error refusal =>
    dsimp only
    split
    · exact h.of_eq hreader
    · exact List.suffix_refl text

private theorem Forward.required (h : Forward reader) : Forward (required reader) := by
  intro text
  unfold Reader.required
  cases hreader : reader text with
  | ok found => exact h.of_eq hreader
  | error refusal =>
    have hrest : refusal.rest <:+ text := h.of_eq hreader
    exact hrest

private theorem Forward.labelled (label : String) (h : Forward reader) :
    Forward (labelled label reader) := by
  intro text
  unfold Reader.labelled
  cases hreader : reader text with
  | ok found => exact h.of_eq hreader
  | error refusal =>
    have hrest : refusal.rest <:+ text := h.of_eq hreader
    exact hrest

/-- A repetition moves on with each item and stays where the first one is refused. -/
private theorem Forward.many (h : Forward reader) : Forward (many reader) := by
  intro text
  induction text using many.induct reader with
  | case1 text refusal hrefusal hfinal =>
    rw [Reader.many, hrefusal]
    simp only [hfinal, if_true]
    exact h.of_eq hrefusal
  | case2 text refusal hrefusal hfinal =>
    rw [Reader.many, hrefusal]
    simp [hfinal, ahead]
  | case3 text first between hfirst hlt ih =>
    rw [Reader.many, hfirst]
    simp only [hlt, if_true]
    refine ahead_map_suffix (fun step => ?_) (ih.trans (h.of_eq hfirst))
    rfl
  | case4 text first between hfirst hnot =>
    rw [Reader.many, hfirst]
    simp only [hnot, if_false]
    exact h.of_eq hfirst

/-- A list moves on as its items and the marks between them do. -/
private theorem Forward.separated {separator : Reader Unit} (hseparator : Forward separator)
    (h : Forward reader) : Forward (separated separator reader) :=
  h.bind fun _ => (hseparator.bind fun _ => h).many.bind fun _ => forward_pure _

end Combinations

section Characters

private theorem forward_char (c : Char) : Forward (char c) := by
  intro text
  cases text with
  | nil => exact List.suffix_refl []
  | cons d rest =>
    rw [char]
    split
    · exact List.suffix_cons d rest
    · exact List.suffix_refl _

private theorem forward_word (expected : String) : Forward (word expected) := by
  intro text
  unfold word
  cases hafter : afterWord? expected.toList text with
  | none => exact List.suffix_refl text
  | some rest => exact ⟨_, (afterWord?_eq_some_iff.1 hafter).symm⟩

private theorem forward_run (belongs : Char → Bool) : Forward (run belongs) := by
  intro text
  unfold run
  dsimp only
  split
  · exact List.suffix_refl text
  · exact List.dropWhile_suffix _

private theorem forward_digits (count : Nat) : Forward (digits count) := by
  intro text
  unfold digits
  dsimp only
  split
  · exact List.drop_suffix ..
  · exact List.suffix_refl text

end Characters

end Reader

open Reader

section Words

private theorem forward_layout : Forward layout := by
  intro text
  change skipLayout text <:+ text
  fun_induction skipLayout text with
  | case1 => exact List.suffix_refl []
  | case2 c rest hc ih => exact ih.trans (List.suffix_cons c rest)
  | case3 rest after hafter hblank ih =>
    obtain ⟨comment, -, -, rfl⟩ := afterComment?_eq_some_iff.1 hafter
    exact ih.trans ((List.suffix_append comment after).trans (List.suffix_cons _ _))
  | case4 => exact List.suffix_refl _
  | case5 => exact List.suffix_refl _

private theorem forward_name : Forward name := by
  intro text
  cases text with
  | nil => exact List.suffix_refl []
  | cons c rest =>
    rw [name]
    split
    · exact (List.dropWhile_suffix _).trans (List.suffix_cons c rest)
    · exact List.suffix_refl _

private theorem forward_boundary : Forward boundary := by
  intro text
  unfold boundary
  split <;> exact List.suffix_refl text

private theorem forward_keyword (expected : String) : Forward (keyword expected) :=
  (forward_word expected).bind fun _ => forward_boundary

private theorem forward_mark (c : Char) : Forward (mark c) :=
  forward_layout.bind fun _ => forward_char c

end Words

section Values

private theorem forward_quotedRest : Forward quotedRest := by
  intro text
  fun_induction quotedRest text with
  | case1 => exact List.suffix_refl []
  | case2 rest => exact List.suffix_cons _ _
  | case3 => exact List.nil_suffix
  | case4 c rest ih =>
    have hrest : rest <:+ '\\' :: c :: rest :=
      (List.suffix_cons c rest).trans (List.suffix_cons '\\' (c :: rest))
    refine ahead_map_suffix (fun step => ?_) (ih.trans hrest)
    rfl
  | case5 c rest _ _ _ ih =>
    refine ahead_map_suffix (fun step => ?_) (ih.trans (List.suffix_cons c rest))
    rfl

private theorem forward_quoted : Forward quoted :=
  (forward_char '"').bind fun _ => forward_quotedRest.bind fun _ => forward_pure _

private theorem forward_dateParts : Forward dateParts :=
  (forward_digits 4).bind fun _ => (forward_char '-').bind fun _ => (forward_digits 2).bind
    fun _ => (forward_char '-').bind fun _ => (forward_digits 2).bind fun _ => forward_pure _

private theorem forward_date : Forward date := by
  intro text
  unfold date
  cases hparts : dateParts text with
  | error refusal => exact forward_dateParts.of_eq hparts
  | ok parts =>
    rw [ok_bind]
    dsimp only
    split
    · exact forward_dateParts.of_eq hparts
    · exact List.suffix_refl text

private theorem forward_decimal : Forward decimal :=
  (forward_char '-').option.bind fun _ => (forward_run _).bind fun _ => (forward_char '.').bind
    fun _ => (forward_run _).bind fun _ => forward_pure _

/-- Taking a sign off leaves an end of the text. -/
private theorem spanSign_suffix (text : List Char) : (Text.spanSign text).2 <:+ text := by
  unfold Text.spanSign
  split
  · exact List.suffix_cons _ _
  · exact List.suffix_cons _ _
  · exact List.suffix_refl _

private theorem forward_integer : Forward integer := by
  intro text
  have hsign := spanSign_suffix text
  unfold integer
  dsimp only
  split
  · rename_i c rest heq
    rw [heq] at hsign
    have hrest : rest <:+ text := (List.suffix_cons c rest).trans hsign
    split
    · split
      · exact (List.dropWhile_suffix _).trans hrest
      · exact List.suffix_refl text
    · split
      · exact hrest
      · exact List.suffix_refl text
  · exact List.suffix_refl text

private theorem forward_value : Forward value :=
  forward_layout.bind fun _ => Forward.labelled _ <|
    (forward_quoted.bind fun _ => forward_pure _).orElse <|
    (forward_date.bind fun _ => forward_pure _).orElse <|
    ((forward_keyword _).bind fun _ => forward_pure _).orElse <|
    ((forward_keyword _).bind fun _ => forward_pure _).orElse <|
    (forward_decimal.bind fun _ => forward_pure _).orElse <|
    forward_integer.bind fun _ => forward_pure _

end Values

section Conditions

private theorem forward_operator : Forward operator :=
  forward_layout.bind fun _ => Forward.labelled _ <|
    (((forward_keyword _).orElse (forward_keyword _)).bind fun _ => forward_pure _).orElse <|
    ((forward_word _).bind fun _ => forward_pure _).orElse <|
    ((forward_word _).bind fun _ => forward_pure _).orElse <|
    ((forward_word _).bind fun _ => forward_pure _).orElse <|
    ((forward_word _).bind fun _ => forward_pure _).orElse <|
    (forward_word _).bind fun _ => forward_pure _

private theorem forward_leaf : Forward leaf :=
  forward_name.bind fun _ => forward_operator.required.bind fun _ =>
    forward_value.required.bind fun _ => forward_pure _

private theorem forward_primary {inner : Reader Condition} (h : Forward inner) :
    Forward (primary inner) :=
  forward_layout.bind fun _ => Forward.labelled _ <|
    ((forward_char '(').bind fun _ => h.bind fun _ => forward_layout.bind fun _ =>
      (forward_char ')').required.bind fun _ => forward_pure _).orElse forward_leaf

private theorem forward_chain (op : Connective) (one other : String) {operand : Reader Condition}
    (h : Forward operand) : Forward (chain op [one, other] operand) :=
  h.bind fun _ => (forward_layout.bind fun _ =>
    ((forward_keyword one).orElse (forward_keyword other)).bind fun _ => h.required).many.bind
      fun _ => forward_pure _

/-- A condition moves on at any depth of parentheses. -/
private theorem forward_conditionWithin (bound : Nat) : Forward (conditionWithin bound) := by
  induction bound with
  | zero => exact fun text => List.suffix_refl text
  | succ bound ih =>
    exact forward_layout.bind fun _ =>
      forward_chain .or _ _ (forward_chain .and _ _ (forward_primary ih))

private theorem forward_condition : Forward condition :=
  fun text => forward_conditionWithin (text.length + 1) text

end Conditions

section Rules

private theorem forward_action : Forward action :=
  forward_layout.bind fun _ => (forward_name.labelled _).bind fun _ =>
    forward_value.required.bind fun _ => forward_pure _

private theorem forward_ruleOption : Forward ruleOption :=
  forward_layout.bind fun _ => Forward.labelled _ <|
    ((forward_keyword _).bind fun _ => forward_layout.bind fun _ =>
      forward_date.required.bind fun _ => forward_pure _).orElse <|
    (forward_keyword _).bind fun _ => forward_pure _

private theorem forward_ruleOptions : Forward ruleOptions :=
  (forward_mark '(').bind fun _ =>
    ((forward_mark ',').separated forward_ruleOption).required.bind fun _ =>
      forward_layout.bind fun _ => (forward_char ')').required.bind fun _ => forward_pure _

private theorem forward_whenPart : Forward whenPart :=
  forward_layout.bind fun _ => (forward_keyword _).bind fun _ => forward_condition.required

private theorem forward_rule : Forward rule :=
  forward_layout.bind fun _ => (forward_keyword _).bind fun _ => forward_layout.bind fun _ =>
    ((forward_quoted.orElse forward_name).required.labelled _).bind fun _ =>
      forward_ruleOptions.option.bind fun _ => forward_layout.bind fun _ =>
        (forward_char ':').required.bind fun _ => forward_whenPart.option.bind fun _ =>
          forward_layout.bind fun _ => ((forward_keyword _).required.labelled _).bind fun _ =>
            ((forward_mark ',').separated forward_action).required.bind fun _ => forward_pure _

private theorem forward_rules : Forward rules :=
  forward_rule.many.bind fun _ => forward_layout.bind fun _ => forward_pure _

end Rules

end Bookkeeping.RuleText

namespace Bookkeeping

/-- A place in a text by its line and its column, both counted from 1. -/
structure Place where
  line : Nat
  column : Nat

namespace Place

/-- The place of the first character of a text. -/
def start : Place where
  line := 1
  column := 1

/-- The place behind a character. -/
def next (place : Place) (c : Char) : Place :=
  if c = '\n' then { line := place.line + 1, column := 1 }
  else { place with column := place.column + 1 }

/-- The place behind a part of a text that starts at some place. -/
def after (place : Place) (read : List Char) : Place :=
  read.foldl next place

/-- The place so many lines further down. -/
def down (place : Place) (lines : Nat) : Place :=
  { place with line := place.line + lines }

variable (place : Place) (read : List Char)

/-- A place is reached part by part. -/
private theorem after_append (more : List Char) :
    place.after (read ++ more) = (place.after read).after more :=
  List.foldl_append

/-- The line counts the line feeds that were read. -/
private theorem line_after : (place.after read).line = place.line + read.count '\n' := by
  induction read generalizing place with
  | nil => rfl
  | cons c read ih =>
    change ((place.next c).after read).line = _
    rw [ih, List.count_cons, next]
    split
    · simp only [*, beq_self_eq_true, if_true]
      omega
    · simp [*]

/-- Lines in front of a text move no place in it to the left or to the right. -/
theorem after_down (lines : Nat) :
    (place.down lines).after read = (place.after read).down lines := by
  induction read generalizing place with
  | nil => rfl
  | cons c read ih =>
    have hnext : (place.down lines).next c = (place.next c).down lines := by
      unfold next down
      split
      · simp only [mk.injEq, and_true]
        omega
      · rfl
    change ((place.down lines).next c).after read = ((place.next c).after read).down lines
    rw [hnext, ih]

/-- Behind the end of a line a new line starts. -/
theorem after_newline (body : List Char) :
    place.after (body ++ ['\n']) = { line := place.line + (body.count '\n' + 1), column := 1 } := by
  rw [after_append]
  change (place.after body).next '\n' = _
  rw [next, if_pos rfl, line_after, Nat.add_assoc]

end Place

namespace ParseError

variable (mistake : ParseError) (lines : Nat)

/-- The place that a mistake is reported at. -/
def place : Place where
  line := mistake.line
  column := mistake.column

/-- The same mistake so many lines further down. -/
def down : ParseError :=
  { mistake with line := mistake.line + lines }

end ParseError

namespace RuleText

open Reader

section Mistakes

variable {before : List Char}

/-- A mistake is reported at the place behind what was read. -/
theorem place_mistakeAfter (read : List Char) (detail : String) :
    (mistakeAfter read detail).place = Place.start.after read := by
  change Place.mk (read.count '\n' + 1) ((read.reverse.takeWhile (· != '\n')).length + 1) = _
  induction read using List.reverseRecOn with
  | nil => rfl
  | append_singleton read c ih =>
    rw [Place.after_append, ← ih, List.reverse_append]
    change _ = Place.next _ c
    by_cases hc : c = '\n' <;> simp [Place.next, hc]

/-- Two mistakes with one detail are as many lines apart as their places. -/
private theorem mistakeAfter_eq_iff {read other : List Char} {detail : String} {lines : Nat} :
    mistakeAfter read detail = (mistakeAfter other detail).down lines ↔
      Place.start.after read = (Place.start.after other).down lines := by
  rw [← place_mistakeAfter read detail, ← place_mistakeAfter other detail]
  simp [mistakeAfter, ParseError.down, ParseError.place, Place.down]

/-- The mistake of a refusal is at the place behind what was read before it. -/
private theorem mistakeAt_append (refusal : Refusal) :
    mistakeAt (before ++ refusal.rest) refusal = mistakeAfter before refusal.detail := by
  rw [mistakeAt, List.length_append, Nat.add_sub_cancel, List.take_left]

/-- What comes of a reading that stops behind a part of the text. -/
def outcome (before : List Char) :
    Except Refusal (List Rule × List Char) → Except ParseError (List Rule)
  | .ok (found, []) => .ok found
  | .ok (_, c :: rest) => .error (mistakeAfter before (Refusal.detail { rest := c :: rest }))
  | .error refusal => .error (mistakeAfter before refusal.detail)

/-- A rule text is parsed as what was read tells, wherever the reader stopped. -/
private theorem parse_eq_outcome {text : String}
    (h : text.toList = before ++ ahead (rules text.toList)) :
    parse text = outcome before (rules text.toList) := by
  unfold parse
  dsimp only
  generalize hread : rules text.toList = reading at h ⊢
  rw [h]
  match reading with
  | .ok (found, []) => rfl
  | .ok (_, c :: rest) => exact congrArg Except.error (mistakeAt_append { rest := c :: rest })
  | .error refusal => exact congrArg Except.error (mistakeAt_append refusal)

/-- A reported mistake stands where the reader stopped. -/
private theorem place_of_outcome {reading : Except Refusal (List Rule × List Char)}
    {mistake : ParseError}
    (h : outcome before reading = .error mistake) : mistake.place = Place.start.after before := by
  match reading with
  | .ok (found, []) => cases h
  | .ok (_, c :: rest) =>
    obtain rfl := Except.error.inj h
    exact place_mistakeAfter ..
  | .error refusal =>
    obtain rfl := Except.error.inj h
    exact place_mistakeAfter ..

end Mistakes

section Idle

/-- The end of a line. -/
inductive LineBreak : List Char → Prop
  | newline : LineBreak ['\n']
  | carriageReturn : LineBreak ['\r', '\n']

/-- A line that holds blanks only, or a comment behind them, with its end. -/
inductive IdleLine : List Char → Prop
  | blank {blanks ending : List Char} (hblanks : ∀ c ∈ blanks, isLayoutBlank c = true)
      (hending : LineBreak ending) : IdleLine (blanks ++ ending)
  | comment {blanks comment ending : List Char} (hblanks : ∀ c ∈ blanks, isLayoutBlank c = true)
      (hcomment : ∀ c ∈ comment, c ≠ '\n' ∧ c ≠ '\r') (hending : LineBreak ending) :
      IdleLine (blanks ++ '#' :: (comment ++ ending))

/-- Any number of lines of blanks and comments. -/
inductive Idle : List Char → Prop
  | nil : Idle []
  | cons {line more : List Char} (hline : IdleLine line) (hmore : Idle more) : Idle (line ++ more)

variable {text rest : List Char}

/-- The end of a line ends a comment in it. -/
private theorem LineBreak.lineEnds {ending : List Char} (h : LineBreak ending) (text : List Char) :
    LineEnds (ending ++ text) := by
  cases h with
  | newline => exact .newline text
  | carriageReturn => exact .carriageReturn text

/-- Blanks before layout are layout. -/
private theorem Layout.blanks {blanks : List Char} (hblanks : ∀ c ∈ blanks, isLayoutBlank c = true)
    (h : Layout text rest) : Layout (blanks ++ text) rest := by
  induction blanks with
  | nil => exact h
  | cons c blanks ih =>
    obtain ⟨hc, hmore⟩ := List.forall_mem_cons.1 hblanks
    exact .blank hc (ih hmore)

/-- The end of a line is layout. -/
private theorem LineBreak.layout {ending : List Char} (h : LineBreak ending) (text : List Char) :
    Layout (ending ++ text) text := by
  cases h with
  | newline => exact .blank rfl (.nothing text)
  | carriageReturn => exact .blank rfl (.blank rfl (.nothing text))

/-- An idle line is layout. -/
private theorem IdleLine.layout {line : List Char} (h : IdleLine line) (text : List Char) :
    Layout (line ++ text) text := by
  cases h with
  | blank hblanks hending =>
    rw [List.append_assoc]
    exact (hending.layout text).blanks hblanks
  | comment hblanks hcomment hending =>
    rw [List.append_assoc, List.cons_append, List.append_assoc]
    exact (Layout.comment hcomment (hending.lineEnds text) (hending.layout text)).blanks hblanks

/-- Layout goes on behind idle lines. -/
theorem Idle.skipLayout_append {front : List Char} (h : Idle front) (text : List Char) :
    skipLayout (front ++ text) = skipLayout text := by
  induction h with
  | nil => rfl
  | cons hline hmore ih => rw [List.append_assoc, (hline.layout _).skipLayout_eq, ih]

/-- An idle line ends with a line feed. -/
private theorem IdleLine.exists_body {line : List Char} (h : IdleLine line) :
    ∃ body, line = body ++ ['\n'] := by
  have hbreak {ending : List Char} (hending : LineBreak ending) :
      ∃ mark, ending = mark ++ ['\n'] := by
    cases hending with
    | newline => exact ⟨[], rfl⟩
    | carriageReturn => exact ⟨['\r'], rfl⟩
  cases h with
  | @blank blanks ending hblanks hending =>
    obtain ⟨mark, rfl⟩ := hbreak hending
    exact ⟨blanks ++ mark, by simp⟩
  | @comment blanks comment ending hblanks hcomment hending =>
    obtain ⟨mark, rfl⟩ := hbreak hending
    exact ⟨blanks ++ '#' :: (comment ++ mark), by simp⟩

/-- Behind idle lines a line starts. -/
theorem Idle.after {front : List Char} (h : Idle front) :
    Place.start.after front = Place.start.down (front.count '\n') := by
  suffices ∀ line, Place.after ⟨line, 1⟩ front = ⟨line + front.count '\n', 1⟩ from this 1
  induction h with
  | nil => exact fun line => rfl
  | cons hline hmore ih =>
    obtain ⟨body, rfl⟩ := hline.exists_body
    intro line
    rw [Place.after_append, Place.after_newline, ih, List.count_append, List.count_append]
    simp [Nat.add_assoc]

/-- A mistake behind idle lines stands so many lines further down. -/
theorem Idle.mistakeAfter_append {front : List Char} (h : Idle front) (before : List Char)
    (detail : String) : mistakeAfter (front ++ before) detail =
      (mistakeAfter before detail).down (front.count '\n') := by
  rw [mistakeAfter_eq_iff, Place.after_append, h.after, Place.after_down]

/-- Behind idle lines the same rules are read, and a mistake is as many lines further down. -/
private theorem Idle.outcome_append {front : List Char} (h : Idle front) (before : List Char)
    (reading : Except Refusal (List Rule × List Char)) :
    outcome (front ++ before) reading =
      (outcome before reading).mapError (·.down (front.count '\n')) := by
  match reading with
  | .ok (found, []) => rfl
  | .ok (_, c :: rest) => exact congrArg Except.error (h.mistakeAfter_append ..)
  | .error refusal => exact congrArg Except.error (h.mistakeAfter_append ..)

/-- Blank and comment lines in front of a rule text change neither its rules nor its mistakes, but
for the lines that these stand further down; and the place of a mistake is that of the character
where the reading stops, or of the end of the text. -/
theorem parse_append_of_idle (text : String) :
    (∀ front : String, Idle front.toList →
      parse (front ++ text) = (parse text).mapError (·.down (front.toList.count '\n'))) ∧
    ∀ mistake, parse text = .error mistake → ∃ before,
      text.toList = before ++ ahead (rules text.toList) ∧
        mistake.place = Place.start.after before := by
  obtain ⟨before, hbefore⟩ := forward_rules text.toList
  have hparse := parse_eq_outcome hbefore.symm
  refine ⟨fun front hidle => ?_, fun mistake hmistake =>
    ⟨before, hbefore.symm, place_of_outcome (hparse.symm.trans hmistake)⟩⟩
  have hrules : rules (front ++ text).toList = rules text.toList := by
    rw [String.toList_append]
    exact rules_congr (hidle.skipLayout_append _)
  have hfront : (front ++ text).toList =
      (front.toList ++ before) ++ ahead (rules (front ++ text).toList) := by
    rw [hrules, List.append_assoc, hbefore, String.toList_append]
  rw [parse_eq_outcome hfront, hrules, hparse]
  exact hidle.outcome_append before _

/-- Comments and blanks before a text move the line of its refusal and nothing else. -/
theorem parse_append_of_idle_comments :
    Idle "# première\r\n \t\n".toList ∧
      parse "rule \"été\": else" = .error ⟨"expected `then`", 1, 13⟩ ∧
        parse ("# première\r\n \t\n" ++ "rule \"été\": else") =
          .error ⟨"expected `then`", 3, 13⟩ := by
  have hchars : " première".toList.all isCommentChar = true := by decide
  have hcomment : IdleLine "# première\r\n".toList :=
    @IdleLine.comment [] " première".toList _ (List.forall_mem_nil _)
      (fun c hc => isCommentChar_iff.1 (List.all_eq_true.1 hchars c hc)) .carriageReturn
  have hblanks : [' ', '\t'].all isLayoutBlank = true := by decide
  have hblank : IdleLine " \t\n".toList := .blank (List.all_eq_true.1 hblanks) .newline
  have hidle : Idle "# première\r\n \t\n".toList := .cons hcomment (.cons hblank .nil)
  have hmistake : parse "rule \"été\": else" = .error ⟨"expected `then`", 1, 13⟩ :=
    errorOf?_eq_some_iff.1 (by decide +kernel)
  refine ⟨hidle, hmistake, ?_⟩
  rw [(parse_append_of_idle "rule \"été\": else").1 _ hidle, hmistake]
  exact congrArg Except.error (by decide)

end Idle

end RuleText

end Bookkeeping
