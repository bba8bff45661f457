import Bookkeeping.RuleText.Grammar

/-!
# Rule texts

Reading a whole rule text gives its rules, or the place of the first mistake as line and
column, both counted from 1, and what was expected there.
-/

namespace Bookkeeping

/-- A mistake in a rule text. -/
structure ParseError where
  detail : String
  line : Nat
  column : Nat
  deriving DecidableEq

namespace ParseError

/-- The wording of a mistake with its place. -/
def message (e : ParseError) : String :=
  "parse error at line " ++ Text.natText e.line ++ ", column " ++ Text.natText e.column ++ ": " ++
    e.detail

end ParseError

namespace RuleText

/-- The wording of a refusal: what was expected, then the cause on a line of its own. -/
def Refusal.detail (refusal : Refusal) : String :=
  let expectation :=
    if refusal.expected.isEmpty then []
    else ["expected " ++ Text.joinWith ", " refusal.expected]
  Text.joinWith "\n" (expectation ++ refusal.cause.toList)

/-- The mistake at the end of the part of a text that was read. -/
def mistakeAfter (read : List Char) (detail : String) : ParseError where
  detail
  line := read.count '\n' + 1
  column := (read.reverse.takeWhile (· != '\n')).length + 1

/-- The mistake that a refusal tells of. -/
def mistakeAt (text : List Char) (refusal : Refusal) : ParseError :=
  mistakeAfter (text.take (text.length - refusal.rest.length)) refusal.detail

/-- Reads a whole text as rules. -/
def parse (text : String) : Except ParseError (List Rule) :=
  let chars := text.toList
  match rules chars with
  | .ok (found, []) => .ok found
  | .ok (_, rest) => .error (mistakeAt chars { rest })
  | .error refusal => .error (mistakeAt chars refusal)

end RuleText

end Bookkeeping
