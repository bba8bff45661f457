import Bookkeeping.Operator
import Bookkeeping.Text.Numeral
import Mathlib.Data.List.Basic

/-!
# The tokens of an expression

How SQL divides a text into tokens. Blanks separate them, and each is read as far as it goes: a
quoted text up to a quote that is not doubled, and a word, a number or an operator up to the first
character that cannot belong to it.
-/

namespace Bookkeeping.Sql

/-- The words that have a meaning in expressions. -/
inductive Keyword where
  | truth
  | falsity
  | and
  | or
  | ilike
  | escape
  deriving DecidableEq

namespace Keyword

def all : List Keyword := [truth, falsity, and, or, ilike, escape]

/-- The word in capital letters. -/
def spelling : Keyword → List Char
  | truth => ['T', 'R', 'U', 'E']
  | falsity => ['F', 'A', 'L', 'S', 'E']
  | and => ['A', 'N', 'D']
  | or => ['O', 'R']
  | ilike => ['I', 'L', 'I', 'K', 'E']
  | escape => ['E', 'S', 'C', 'A', 'P', 'E']

/-- The keyword of a word, in any case of the letters. -/
def ofWord? (word : List Char) : Option Keyword :=
  all.find? (·.spelling == word.map Char.toUpper)

end Keyword

inductive Token where
  | opening
  | closing
  | dot
  /-- A name in double quotes. -/
  | identifier (name : String)
  /-- A text in single quotes. -/
  | literal (text : String)
  /-- The place of a bound value, counted from 1. -/
  | placeholder (number : Nat)
  | operator (op : Operator)
  | word (keyword : Keyword)
  deriving DecidableEq

/-- The number of a placeholder. -/
def Token.number? : Token → Option Nat
  | .placeholder number => some number
  | _ => none

/-- What stands around a quoted text. -/
inductive Quote where
  | single
  | double

def Quote.char : Quote → Char
  | single => '\''
  | double => '"'

/-- The token of a text in quotes: a name, or a text of the expression's own. -/
def Quote.token : Quote → String → Token
  | single => .literal
  | double => .identifier

/-- A token that is being read, with its characters so far. -/
inductive Lexeme where
  /-- A token of one character. -/
  | mark (token : Token)
  /-- A quoted text that has not come to its end. -/
  | quoting (quote : Quote) (read : List Char)
  /-- A quoted text that has come to its end, unless another quote follows. -/
  | quoted (quote : Quote) (read : List Char)
  | letters (read : List Char)
  | digits (read : List Char)
  | signs (read : List Char)

namespace Lexeme

def isWordChar (c : Char) : Bool :=
  c.isAlphanum || c == '_'

def isSign (c : Char) : Bool :=
  c == '<' || c == '=' || c == '>'

/-- What begins with the character. -/
def begin? (c : Char) : Option Lexeme :=
  if c = '(' then some (.mark .opening)
  else if c = ')' then some (.mark .closing)
  else if c = '.' then some (.mark .dot)
  else if c = Quote.single.char then some (.quoting .single [])
  else if c = Quote.double.char then some (.quoting .double [])
  else if c = '$' then some (.digits [])
  else if isSign c then some (.signs [c])
  else if isWordChar c && !c.isDigit then some (.letters [c])
  else none

/-- The lexeme with one more character, if that belongs to it. -/
def extend? : Lexeme → Char → Option Lexeme
  | .mark _, _ => none
  | .quoting quote read, c =>
    some (if c = quote.char then .quoted quote read else .quoting quote (read ++ [c]))
  | .quoted quote read, c =>
    if c = quote.char then some (.quoting quote (read ++ [c])) else none
  | .letters read, c => if isWordChar c then some (.letters (read ++ [c])) else none
  | .digits read, c => if c.isDigit then some (.digits (read ++ [c])) else none
  | .signs read, c => if isSign c then some (.signs (read ++ [c])) else none

/-- The token that a whole lexeme is, if it is one. -/
def token? : Lexeme → Option Token
  | .mark token => some token
  | .quoting _ _ => none
  | .quoted quote read => some (quote.token (String.ofList read))
  | .letters read => (Keyword.ofWord? read).map .word
  | .digits read => if read.isEmpty then none else some (.placeholder (Text.digitsValue read))
  | .signs read => (Operator.ofKey? (String.ofList read)).map .operator

end Lexeme

/-- What is being read after a character between tokens. -/
def start? (c : Char) : Option (Option Lexeme) :=
  if c = ' ' then some none else (Lexeme.begin? c).map some

/-- The tokens of a text, where part of the first may have been read already. -/
def scan : Option Lexeme → List Char → Option (List Token)
  | none, [] => some []
  | some lexeme, [] => lexeme.token?.map ([·])
  | none, c :: rest => (start? c).bind (scan · rest)
  | some lexeme, c :: rest =>
    match lexeme.extend? c with
    | some longer => scan (some longer) rest
    | none => lexeme.token?.bind fun token => ((start? c).bind (scan · rest)).map (token :: ·)

/-- The tokens of a text, unless it cannot be divided. -/
def tokens? (text : String) : Option (List Token) :=
  scan none text.toList

section Scan

variable {lexeme longer : Lexeme} {token : Token} {c : Char} {text rest : List Char}

/-- A lexeme that does not go on is a token. -/
theorem scan_of_ended (htoken : lexeme.token? = some token)
    (hrest : ∀ c ∈ rest.head?, lexeme.extend? c = none) :
    scan (some lexeme) rest = (scan none rest).map (token :: ·) := by
  cases rest with
  | nil => simp only [scan, htoken, Option.map_some]
  | cons c rest => simp only [scan, hrest c rfl, htoken, Option.bind_some]

/-- A lexeme is read character by character. -/
theorem scan_of_extended (h : text.foldlM Lexeme.extend? lexeme = some longer) :
    scan (some lexeme) (text ++ rest) = scan (some longer) rest := by
  induction text generalizing lexeme with
  | nil =>
    obtain rfl := Option.some.inj h
    rfl
  | cons c text ih =>
    obtain ⟨next, hnext, htext⟩ := Option.bind_eq_some_iff.1 h
    rw [List.cons_append, scan, hnext]
    exact ih htext

private theorem scan_of_begin (h : Lexeme.begin? c = some lexeme) :
    scan none (c :: rest) = scan (some lexeme) rest := by
  have hblank : c ≠ ' ' := by
    rintro rfl
    cases h
  rw [scan, start?, if_neg hblank, h]
  rfl

/-- A mark is a token whatever follows. -/
theorem scan_of_mark (h : Lexeme.begin? c = some (.mark token)) :
    scan none (c :: rest) = (scan none rest).map (token :: ·) := by
  rw [scan_of_begin h]
  exact scan_of_ended rfl fun _ _ => rfl

end Scan

/-- The character goes on with no lexeme that is a token before it. -/
def parts (c : Char) : Bool :=
  c == ' ' || c == ')' || c == '.'

private theorem Lexeme.extend?_of_parts {lexeme : Lexeme} {token : Token}
    (htoken : lexeme.token? = some token) {c : Char} (hc : parts c = true) :
    lexeme.extend? c = none := by
  have hcases : c = ' ' ∨ c = ')' ∨ c = '.' := by simpa [parts, or_assoc] using hc
  cases lexeme with
  | mark => rfl
  | quoting => cases htoken
  | quoted quote read => cases quote <;> rcases hcases with rfl | rfl | rfl <;> rfl
  | letters read => rcases hcases with rfl | rfl | rfl <;> rfl
  | digits read => rcases hcases with rfl | rfl | rfl <;> rfl
  | signs read => rcases hcases with rfl | rfl | rfl <;> rfl

/-- The text is divided into the tokens wherever it is parted from what follows. -/
def Lexes (text : List Char) (tokens : List Token) : Prop :=
  ∀ rest : List Char, (∀ c ∈ rest.head?, parts c = true) →
    scan none (text ++ rest) = (scan none rest).map (tokens ++ ·)

/-- A text that is divided into tokens has these tokens. -/
theorem Lexes.tokens?_eq {text : String} {tokens : List Token} (h : Lexes text.toList tokens) :
    tokens? text = some tokens := by
  have hall := h [] (by simp)
  rwa [List.append_nil, scan, Option.map_some, List.append_nil] at hall

/-- One lexeme is one token. -/
theorem lexes_lexeme {c : Char} {text : List Char} {first last : Lexeme} {token : Token}
    (hfirst : Lexeme.begin? c = some first) (hlast : text.foldlM Lexeme.extend? first = some last)
    (htoken : last.token? = some token) : Lexes (c :: text) [token] := by
  intro rest hrest
  have hended : ∀ c ∈ rest.head?, last.extend? c = none :=
    fun c hc => Lexeme.extend?_of_parts htoken (hrest c hc)
  rw [List.cons_append, scan_of_begin hfirst, scan_of_extended hlast, scan_of_ended htoken hended]
  rfl

section Composition

variable {first second : List Char} {before after : List Token}

/-- Texts with a blank between them. -/
theorem Lexes.blank (hfirst : Lexes first before) (hsecond : Lexes second after) :
    Lexes (first ++ ' ' :: second) (before ++ after) := by
  intro rest hrest
  have hparted := hfirst (' ' :: (second ++ rest)) (by simp [parts])
  have hskip : scan none (' ' :: (second ++ rest)) = scan none (second ++ rest) := rfl
  rw [List.append_assoc, List.cons_append, hparted, hskip, hsecond rest hrest, Option.map_map]
  simp only [Function.comp_def, List.append_assoc]

/-- Texts with a dot between them. -/
theorem Lexes.dotted (hfirst : Lexes first before) (hsecond : Lexes second after) :
    Lexes (first ++ '.' :: second) (before ++ .dot :: after) := by
  intro rest hrest
  have hparted := hfirst ('.' :: (second ++ rest)) (by simp [parts])
  have hdot : scan none ('.' :: (second ++ rest)) = (scan none (second ++ rest)).map (.dot :: ·) :=
    scan_of_mark rfl
  rw [List.append_assoc, List.cons_append, hparted, hdot, hsecond rest hrest, Option.map_map,
    Option.map_map]
  simp only [Function.comp_def, List.append_assoc, List.cons_append]

/-- A text in parentheses. -/
theorem Lexes.parenthesized (hfirst : Lexes first before) :
    Lexes ('(' :: (first ++ [')'])) (.opening :: (before ++ [.closing])) := by
  intro rest hrest
  have hopening : scan none ('(' :: (first ++ ')' :: rest)) =
      (scan none (first ++ ')' :: rest)).map (.opening :: ·) := scan_of_mark rfl
  have hparted := hfirst (')' :: rest) (by simp [parts])
  have hclosing : scan none (')' :: rest) = (scan none rest).map (.closing :: ·) :=
    scan_of_mark rfl
  rw [List.cons_append, List.append_assoc, List.singleton_append, hopening, hparted, hclosing,
    Option.map_map, Option.map_map]
  simp only [Function.comp_def, List.append_assoc, List.cons_append, List.nil_append]

end Composition

section Lexemes

/-- What a quoted text holds is what is written in it, with its quotes doubled. -/
theorem extended_quoting (quote : Quote) (read text : List Char) :
    (text.flatMap fun c => if c = quote.char then [c, c] else [c]).foldlM Lexeme.extend?
      (.quoting quote read) = some (.quoting quote (read ++ text)) := by
  induction text generalizing read with
  | nil => simp
  | cons c text ih =>
    have hc : (if c = quote.char then [c, c] else [c]).foldlM Lexeme.extend?
        (.quoting quote read) = some (.quoting quote (read ++ [c])) := by
      by_cases hquote : c = quote.char
      · simp [hquote, Lexeme.extend?]
      · simp [hquote, Lexeme.extend?]
    rw [List.flatMap_cons, List.foldlM_append, hc, Option.bind_eq_bind, Option.bind_some, ih,
      List.append_assoc, List.singleton_append]

/-- What is written in quotes is one token with the text, doubled quotes being single. -/
theorem lexes_quoted (quote : Quote) (text : String) :
    Lexes (quote.char :: ((text.toList.flatMap fun c => if c = quote.char then [c, c] else [c]) ++
      [quote.char])) [quote.token text] := by
  have hfirst : Lexeme.begin? quote.char = some (.quoting quote []) := by
    cases quote <;> rfl
  have hlast : ((text.toList.flatMap fun c => if c = quote.char then [c, c] else [c]) ++
      [quote.char]).foldlM Lexeme.extend? (.quoting quote []) =
        some (.quoted quote text.toList) := by
    rw [List.foldlM_append, extended_quoting]
    simp [Lexeme.extend?]
  refine lexes_lexeme hfirst hlast ?_
  rw [Lexeme.token?, String.ofList_toList]

private theorem extended_digits {digits : List Char} (h : ∀ c ∈ digits, c.isDigit = true)
    (read : List Char) :
    digits.foldlM Lexeme.extend? (.digits read) = some (.digits (read ++ digits)) := by
  induction digits generalizing read with
  | nil => simp
  | cons c digits ih =>
    obtain ⟨hc, hdigits⟩ := List.forall_mem_cons.1 h
    rw [List.foldlM_cons, Lexeme.extend?, if_pos hc, Option.bind_eq_bind, Option.bind_some,
      ih hdigits, List.append_assoc, List.singleton_append]

/-- A placeholder is one token with its number. -/
theorem lexes_placeholder (number : Nat) :
    Lexes ('$' :: Text.natDigits number) [.placeholder number] := by
  have hdigits : ∀ c ∈ Text.natDigits number, c.isDigit = true :=
    fun c hc => Nat.isDigit_of_mem_toDigits (by decide) (by decide) hc
  have hne : Text.natDigits number ≠ [] := Nat.toDigits_ne_nil
  refine lexes_lexeme rfl (extended_digits hdigits []) ?_
  simp [Lexeme.token?, hne, Text.digitsValue_natDigits]

/-- A keyword is one token. -/
theorem lexes_keyword (keyword : Keyword) : Lexes keyword.spelling [.word keyword] := by
  cases keyword <;> exact lexes_lexeme rfl rfl rfl

/-- Every operator but `like` is one of the signs. -/
theorem lexes_operator {op : Operator} (h : op ≠ .like) : Lexes op.key.toList [.operator op] := by
  cases op with
  | like => exact absurd rfl h
  | eq => exact lexes_lexeme rfl rfl rfl
  | gt => exact lexes_lexeme rfl rfl rfl
  | gte => exact lexes_lexeme rfl rfl rfl
  | lt => exact lexes_lexeme rfl rfl rfl
  | lte => exact lexes_lexeme rfl rfl rfl

end Lexemes

end Bookkeeping.Sql
