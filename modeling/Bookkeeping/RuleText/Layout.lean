import Bookkeeping.RuleText.Reader

/-!
# Layout and words

Between the words of a rule text stands layout: ASCII blanks and comments. A comment runs from
`#` to the end of its line. A carriage return that does not end the line spoils the comment,
and its `#` is then no layout.
-/

namespace Bookkeeping.RuleText

/-- The ASCII blanks. -/
def isLayoutBlank (c : Char) : Bool :=
  c = ' ' || c = '\t' || c = '\n' || c = '\r' || c = '\x0c'

/-- Whether a comment goes on with this character. -/
def isCommentChar (c : Char) : Bool :=
  c != '\n' && c != '\r'

/-- The text from the end of a comment on, if it ends with its line or with the text. -/
def afterComment? (text : List Char) : Option (List Char) :=
  match text.dropWhile isCommentChar with
  | '\r' :: '\n' :: rest => some ('\r' :: '\n' :: rest)
  | '\r' :: _ => none
  | rest => some rest

/-- A comment only takes from a text. -/
theorem length_afterComment?_le {text rest : List Char} (h : afterComment? text = some rest) :
    rest.length ≤ text.length := by
  have hdrop := (List.dropWhile_sublist isCommentChar (l := text)).length_le
  unfold afterComment? at h
  split at h
  · rename_i heq
    rw [heq] at hdrop
    exact Option.some.inj h ▸ hdrop
  · cases h
  · exact Option.some.inj h ▸ hdrop

/-- The text without the layout at its front. -/
def skipLayout : List Char → List Char
  | [] => []
  | c :: rest =>
    if isLayoutBlank c then
      skipLayout rest
    else if c = '#' then
      match _h : afterComment? rest with
      | some after => skipLayout after
      | none => c :: rest
    else
      c :: rest
termination_by text => text.length
decreasing_by
  · simp
  · exact Nat.lt_succ_of_le (length_afterComment?_le _h)

/-- Passes over layout. -/
def layout : Reader Unit :=
  fun text => .ok ((), skipLayout text)

/-- The characters a name may start with. -/
def isNameStart (c : Char) : Bool :=
  c.isAlpha || c = '_'

/-- The characters a name may go on with. -/
def isNameChar (c : Char) : Bool :=
  c.isAlphanum || c = '_'

/-- Reads a name: a letter or underscore and any letters, digits and underscores. -/
def name : Reader String
  | [] => .error { rest := [] }
  | c :: rest =>
    if isNameStart c then
      .ok (String.ofList (c :: rest.takeWhile isNameChar), rest.dropWhile isNameChar)
    else
      .error { rest := c :: rest }

/-- Refuses a text that goes on with a character of a name. -/
def boundary : Reader Unit := fun text =>
  if text.head?.any isNameChar then .error { rest := text } else .ok ((), text)

/-- Reads a word that no further character of a name follows. -/
def keyword (expected : String) : Reader Unit := do
  Reader.word expected
  boundary

/-- Passes over layout and reads a character. -/
def mark (c : Char) : Reader Unit := do
  layout
  Reader.char c

end Bookkeeping.RuleText
