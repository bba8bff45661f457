import Bookkeeping.Proofs.Binary64.Nearest
import Bookkeeping.RuleText

/-!
# The forms of rule texts

A grammar of rule texts, apart from the readers: which thing the front of a text writes, and what
is left of the text. A form may leave off at more than one place, as an integer before its last
digit; what has to follow decides.
-/

namespace Bookkeeping.RuleText

open Bookkeeping.Text

/-- A way to write things of a kind: the front of the text writes the thing, and the rest is
left. -/
abbrev Form (α : Type) := (text rest : List Char) → α → Prop

section Combinations

variable {α : Type}

/-- A comment ends with its line or with the text. -/
inductive LineEnds : List Char → Prop
  | newline (rest : List Char) : LineEnds ('\n' :: rest)
  | carriageReturn (rest : List Char) : LineEnds ('\r' :: '\n' :: rest)
  | textEnd : LineEnds []

/-- Any number of blanks and comments. -/
inductive Layout : (text rest : List Char) → Prop
  | nothing (rest : List Char) : Layout rest rest
  | blank {c : Char} {text rest : List Char} (hc : isLayoutBlank c = true)
      (hrest : Layout text rest) : Layout (c :: text) rest
  | comment {comment after rest : List Char} (hcomment : ∀ c ∈ comment, c ≠ '\n' ∧ c ≠ '\r')
      (hends : LineEnds after) (hrest : Layout after rest) : Layout ('#' :: (comment ++ after)) rest

/-- Layout and then the thing. -/
inductive Spaced (form : Form α) : Form α
  | mk {text start rest : List Char} {found : α} (hlayout : Layout text start)
      (hfound : form start rest found) : Spaced form text rest found

/-- Layout, a mark and then the thing. -/
inductive Marked (mark : Char) (form : Form α) : Form α
  | mk {text start rest : List Char} {found : α} (hmark : Layout text (mark :: start))
      (hfound : form start rest found) : Marked mark form text rest found

/-- Any number of things, one after another. -/
inductive Repeated (form : Form α) : Form (List α)
  | nil (rest : List Char) : Repeated form rest rest []
  | cons {text between rest : List Char} {first : α} {others : List α}
      (hfirst : form text between first) (hothers : Repeated form between rest others) :
      Repeated form text rest (first :: others)

/-- One or more things with commas between them. -/
inductive Listed (form : Form α) : Form (List α)
  | mk {text between rest : List Char} {first : α} {others : List α}
      (hfirst : form text between first)
      (hothers : Repeated (Marked ',' form) between rest others) :
      Listed form text rest (first :: others)

end Combinations

section Words

/-- No character follows that would continue a name. -/
def NameEnds (rest : List Char) : Prop :=
  ∀ c ∈ rest.head?, isNameChar c = false

/-- The whole word. -/
def Word (word : String) (text rest : List Char) : Prop :=
  text = word.toList ++ rest ∧ NameEnds rest

/-- A letter or underscore with all the letters, digits and underscores that follow. -/
inductive Name : Form String
  | mk {c : Char} {more rest : List Char} (hc : isNameStart c = true)
      (hmore : ∀ d ∈ more, isNameChar d = true) (hends : NameEnds rest) :
      Name (c :: (more ++ rest)) rest (String.ofList (c :: more))

end Words

section Values

/-- The characters of a quoted text with the quote that closes it. -/
inductive QuotedRest : Form (List Char)
  | close (rest : List Char) : QuotedRest ('"' :: rest) rest []
  | escape (c : Char) {text rest found : List Char} (hfound : QuotedRest text rest found) :
      QuotedRest ('\\' :: c :: text) rest (unescape c ++ found)
  | plain {c : Char} {text rest found : List Char} (hquote : c ≠ '"') (hbackslash : c ≠ '\\')
      (hfound : QuotedRest text rest found) : QuotedRest (c :: text) rest (c :: found)

/-- A text in double quotes. -/
inductive Quoted : Form String
  | mk {text rest found : List Char} (hfound : QuotedRest text rest found) :
      Quoted ('"' :: text) rest (String.ofList found)

/-- So many digits. -/
structure Digits (count : Nat) (digits : List Char) : Prop where
  length_eq : digits.length = count
  isDigit : ∀ c ∈ digits, c.isDigit = true

/-- One or more digits. -/
structure Numeral (digits : List Char) : Prop where
  ne_nil : digits ≠ []
  isDigit : ∀ c ∈ digits, c.isDigit = true

/-- A date with four digits for the year and two each for month and day. -/
inductive DateForm : Form Date
  | mk {year month day rest : List Char} {date : Date} (hyear : Digits 4 year)
      (hmonth : Digits 2 month) (hday : Digits 2 day) (year_eq : date.year = digitsValue year)
      (month_eq : date.month = digitsValue month) (day_eq : date.day = digitsValue day) :
      DateForm (year ++ '-' :: (month ++ '-' :: (day ++ rest))) rest date

/-- A decimal with digits on both sides of its point: the number of the format nearest to it. -/
inductive DecimalForm : Form Binary64
  | unsigned {whole fraction rest : List Char} {x : Binary64} (hwhole : Numeral whole)
      (hfraction : Numeral fraction)
      (hx : Binary64.Nearest false (digitsValue (whole ++ fraction)) (10 ^ fraction.length) x) :
      DecimalForm (whole ++ '.' :: (fraction ++ rest)) rest x
  | minus {whole fraction rest : List Char} {x : Binary64} (hwhole : Numeral whole)
      (hfraction : Numeral fraction)
      (hx : Binary64.Nearest true (digitsValue (whole ++ fraction)) (10 ^ fraction.length) x) :
      DecimalForm ('-' :: (whole ++ '.' :: (fraction ++ rest))) rest x

/-- The digits of a positive integer. -/
structure Positive (digits : List Char) : Prop where
  head_le : ∀ c ∈ digits.head?, '1' ≤ c
  toNumeral : Numeral digits

/-- An integer of 64 bits: zero, or the digits of another one with or without a sign. -/
inductive IntegerForm : Form Int64
  | zero (rest : List Char) : IntegerForm ('0' :: rest) rest 0
  | unsigned {digits rest : List Char} {n : Int64} (hdigits : Positive digits)
      (hn : n.toInt = digitsValue digits) : IntegerForm (digits ++ rest) rest n
  | plus {digits rest : List Char} {n : Int64} (hdigits : Positive digits)
      (hn : n.toInt = digitsValue digits) : IntegerForm ('+' :: (digits ++ rest)) rest n
  | minus {digits rest : List Char} {n : Int64} (hdigits : Positive digits)
      (hn : n.toInt = -digitsValue digits) : IntegerForm ('-' :: (digits ++ rest)) rest n

/-- A value. -/
inductive ValueForm : Form Value
  | text {text rest : List Char} {s : String} (h : Quoted text rest s) :
      ValueForm text rest (.text s)
  | date {text rest : List Char} {d : Date} (h : DateForm text rest d) :
      ValueForm text rest (.date d)
  | true {text rest : List Char} (h : Word "true" text rest) : ValueForm text rest (.flag true)
  | false {text rest : List Char} (h : Word "false" text rest) : ValueForm text rest (.flag false)
  | decimal {text rest : List Char} {x : Binary64} (h : DecimalForm text rest x) :
      ValueForm text rest (.decimal x)
  | int {text rest : List Char} {n : Int64} (h : IntegerForm text rest n) :
      ValueForm text rest (.int n)

end Values

section Conditions

/-- An operator: the word in small or in capital letters, or a sign. -/
inductive OperatorForm : Form Operator
  | like {text rest : List Char} (h : Word "like" text rest ∨ Word "LIKE" text rest) :
      OperatorForm text rest .like
  | sign {op : Operator} (hop : op ≠ .like) (rest : List Char) :
      OperatorForm (op.key.toList ++ rest) rest op

/-- A connective in small or in capital letters, and the condition after it. -/
inductive Joined (op : Connective) (operand : Form Condition) : Form Condition
  | mk {text start between rest : List Char} {found : Condition} (hlayout : Layout text start)
      (hword : Word op.key start between ∨ Word op.display start between)
      (hfound : operand between rest found) : Joined op operand text rest found

/-- A condition, or several joined by a connective. -/
inductive Chain (op : Connective) (operand : Form Condition) : Form Condition
  | alone {text rest : List Char} {found : Condition} (hfound : operand text rest found) :
      Chain op operand text rest found
  | joined {text between rest : List Char} {first second : Condition} {others : List Condition}
      (hfirst : operand text between first)
      (hothers : Repeated (Joined op operand) between rest (second :: others)) :
      Chain op operand text rest (.joined op (first :: second :: others))

/-- A condition on one column, or any condition in parentheses. -/
inductive Primary : Form Condition
  | leaf {text afterName afterOperator rest : List Char} {typeKey : String} {op : Operator}
      {read : Value} (hname : Spaced Name text afterName typeKey)
      (hoperator : Spaced OperatorForm afterName afterOperator op)
      (hvalue : Spaced ValueForm afterOperator rest read) :
      Primary text rest (.atom typeKey op read)
  | group {text inside after rest : List Char} {found : Condition}
      (hopen : Layout text ('(' :: inside))
      (hinside : Chain .or (Chain .and Primary) inside after found)
      (hclose : Layout after (')' :: rest)) : Primary text rest found

/-- A condition: `and` binds tighter than `or`. -/
abbrev ConditionForm : Form Condition :=
  Chain .or (Chain .and Primary)

end Conditions

section Rules

/-- An action. -/
inductive ActionForm : Form Action
  | mk {text afterName rest : List Char} {typeKey : String} {read : Value}
      (hname : Spaced Name text afterName typeKey)
      (hvalue : Spaced ValueForm afterName rest read) : ActionForm text rest ⟨typeKey, read⟩

/-- An option of a rule. -/
inductive OptionForm : Form RuleOption
  | effective {text start afterWord rest : List Char} {date : Date} (hlayout : Layout text start)
      (hword : Word "effective" start afterWord) (hdate : Spaced DateForm afterWord rest date) :
      OptionForm text rest (.effective date)
  | inactive {text start rest : List Char} (hlayout : Layout text start)
      (hword : Word "inactive" start rest) : OptionForm text rest .inactive

/-- No options, or options in parentheses. -/
inductive OptionsForm : Form (List RuleOption)
  | none (rest : List Char) : OptionsForm rest rest []
  | some {text inside after rest : List Char} {options : List RuleOption}
      (hopen : Layout text ('(' :: inside)) (hlisted : Listed OptionForm inside after options)
      (hclose : Layout after (')' :: rest)) : OptionsForm text rest options

/-- No conditions, or a condition after `when`. -/
inductive WhenForm : Form (List Condition)
  | none (rest : List Char) : WhenForm rest rest []
  | some {text start afterWord rest : List Char} {found : Condition} (hlayout : Layout text start)
      (hword : Word "when" start afterWord) (hcondition : ConditionForm afterWord rest found) :
      WhenForm text rest [found]

/-- The name of a rule. -/
inductive TitleForm : Form String
  | quoted {text rest : List Char} {s : String} (h : Quoted text rest s) : TitleForm text rest s
  | name {text rest : List Char} {s : String} (h : Name text rest s) : TitleForm text rest s

/-- The first day that an option sets. -/
def RuleOption.date? : RuleOption → Option Date
  | .effective date => some date
  | .inactive => none

/-- Whether an option switches the rule off. -/
def RuleOption.isInactive : RuleOption → Bool
  | .effective _ => false
  | .inactive => true

/-- The rule of these parts: the last first day counts, and one option is enough to switch it
off. -/
def ruleOf (title : String) (options : List RuleOption) (conditions : List Condition)
    (actions : List Action) : Rule where
  name := some title
  domain := .transaction
  active := !options.any RuleOption.isInactive
  effectiveDate := (options.filterMap RuleOption.date?).getLast?
  conditions
  actions

/-- A rule. -/
inductive RuleForm : Form Rule
  | mk {text start afterWord afterTitle afterOptions afterColon afterWhen beforeThen afterThen
        rest : List Char} {title : String} {options : List RuleOption}
      {conditions : List Condition} {actions : List Action}
      (hlayout : Layout text start) (hword : Word "rule" start afterWord)
      (htitle : Spaced TitleForm afterWord afterTitle title)
      (hoptions : OptionsForm afterTitle afterOptions options)
      (hcolon : Layout afterOptions (':' :: afterColon))
      (hwhen : WhenForm afterColon afterWhen conditions)
      (hlast : Layout afterWhen beforeThen) (hthen : Word "then" beforeThen afterThen)
      (hactions : Listed ActionForm afterThen rest actions) :
      RuleForm text rest (ruleOf title options conditions actions)

/-- The whole text writes the rules: one after another, with layout after the last. -/
def FileForm (text : List Char) (rules : List Rule) : Prop :=
  ∃ rest, Repeated RuleForm text rest rules ∧ Layout rest []

end Rules

end Bookkeeping.RuleText
