/-!
# Readers

A reader takes something from the front of a text. When it cannot, its refusal says where it
stood, which need not be where it began, and what would have been read there. A refusal that is
final ends the reading of the whole text; any other lets a choice try its next alternative, or
a repetition end, from where that choice or repetition began.
-/

namespace Bookkeeping.RuleText

/-- Why and where a reader stopped. -/
structure Refusal where
  /-- The text from the place where the reader stood. -/
  rest : List Char
  /-- What was expected, from the innermost reader outwards. -/
  expected : List String := []
  /-- Why something of the right form was refused. -/
  cause : Option String := none
  /-- Whether no alternative may be tried. -/
  final : Bool := false
  deriving DecidableEq

/-- A reader of a thing at the front of a text. -/
abbrev Reader (α : Type) := StateT (List Char) (Except Refusal) α

namespace Reader

variable {α : Type}

/-- Refuses the text where it stands. -/
def refuse : Reader α :=
  fun text => .error { rest := text }

/-- Reads by the first reader, or by the second from the same place. -/
def orElse (first second : Reader α) : Reader α := fun text =>
  match first text with
  | .ok found => .ok found
  | .error refusal => if refusal.final then .error refusal else second text

/-- Reads by the first reader of a list that does not refuse. -/
def choice : List (Reader α) → Reader α
  | [] => refuse
  | [last] => last
  | first :: rest => orElse first (choice rest)

/-- Reads something or nothing. -/
def option (reader : Reader α) : Reader (Option α) := fun text =>
  match reader text with
  | .ok (found, rest) => .ok (some found, rest)
  | .error refusal => if refusal.final then .error refusal else .ok (none, text)

/-- Makes every refusal final: what was read before leaves no other way to go on. -/
def required (reader : Reader α) : Reader α := fun text =>
  match reader text with
  | .ok found => .ok found
  | .error refusal => .error { refusal with final := true }

/-- Names what a reader reads, for its refusals. -/
def labelled (label : String) (reader : Reader α) : Reader α := fun text =>
  match reader text with
  | .ok found => .ok found
  | .error refusal => .error { refusal with expected := refusal.expected ++ [label] }

/-- Reads as often as it goes. What is read without taking anything would come again without end,
so the text is refused there. -/
def many (reader : Reader α) (text : List Char) : Except Refusal (List α × List Char) :=
  match reader text with
  | .error refusal => if refusal.final then .error refusal else .ok ([], text)
  | .ok (found, rest) =>
    if rest.length < text.length then
      (many reader rest).map fun (others, rest) => (found :: others, rest)
    else
      .error { rest }
termination_by text.length

/-- Reads one or more things with a separator between them. -/
def separated (separator : Reader Unit) (reader : Reader α) : Reader (List α) := do
  let first ← reader
  let others ← many (do separator; reader)
  return first :: others

/-- Reads a character. -/
def char (c : Char) : Reader Unit
  | [] => .error { rest := [] }
  | d :: rest => if d = c then .ok ((), rest) else .error { rest := d :: rest }

/-- What follows a word at the front of a text. -/
def afterWord? : List Char → List Char → Option (List Char)
  | [], text => some text
  | _ :: _, [] => none
  | c :: word, d :: text => if d = c then afterWord? word text else none

/-- Reads a word. -/
def word (expected : String) : Reader Unit := fun text =>
  match afterWord? expected.toList text with
  | some rest => .ok ((), rest)
  | none => .error { rest := text }

/-- Reads one or more characters of a class. -/
def run (belongs : Char → Bool) : Reader (List Char) := fun text =>
  let found := text.takeWhile belongs
  if found.isEmpty then .error { rest := text } else .ok (found, text.dropWhile belongs)

/-- Reads so many digits. -/
def digits (count : Nat) : Reader (List Char) := fun text =>
  let found := (text.take count).takeWhile Char.isDigit
  if found.length = count then .ok (found, text.drop count) else .error { rest := text }

end Reader

end Bookkeeping.RuleText
