import Bookkeeping.Binary64.Rounding
import Bookkeeping.RuleText.Layout
import Bookkeeping.Text.Numeral
import Bookkeeping.Value

/-!
# Literals

Values in rule texts: texts in double quotes, dates as `YYYY-MM-DD`, the words `true` and
`false`, decimals with a point and digits on both sides of it, and integers. An integer has no
leading zeros, and zero no sign.
-/

namespace Bookkeeping.RuleText

open Bookkeeping.Text

/-- The characters that a backslash and this character write. -/
def unescape (c : Char) : List Char :=
  match c with
  | '"' => ['"']
  | '\\' => ['\\']
  | 'n' => ['\n']
  | 't' => ['\t']
  | other => ['\\', other]

/-- Reads the rest of a quoted text, up to its closing quote. -/
def quotedRest : List Char → Except Refusal (List Char × List Char)
  | [] => .error { rest := [] }
  | '"' :: rest => .ok ([], rest)
  | ['\\'] => .error { rest := [] }
  | '\\' :: c :: rest =>
    (quotedRest rest).map fun (found, after) => (unescape c ++ found, after)
  | c :: rest => (quotedRest rest).map fun (found, after) => (c :: found, after)

/-- Reads a text in double quotes. -/
def quoted : Reader String := do
  Reader.char '"'
  let found ← quotedRest
  return String.ofList found

/-- Reads the parts of a date: four, two and two digits with hyphens between them. -/
def dateParts : Reader (Nat × Nat × Nat) := do
  let year ← Reader.digits 4
  Reader.char '-'
  let month ← Reader.digits 2
  Reader.char '-'
  let day ← Reader.digits 2
  return (digitsValue year, digitsValue month, digitsValue day)

/-- Reads a date, which has to exist. -/
def date : Reader Date := fun text => do
  let ((year, month, day), rest) ← dateParts text
  match Date.ofParts? year month day with
  | some found => .ok (found, rest)
  | none => .error { rest := text, cause := some "input is out of range" }

/-- Reads a decimal: an optional minus sign and digits on both sides of a point. -/
def decimal : Reader Binary64 := do
  let sign ← Reader.option (Reader.char '-')
  let whole ← Reader.run Char.isDigit
  Reader.char '.'
  let fraction ← Reader.run Char.isDigit
  return Binary64.ofDecimal sign.isSome (digitsValue (whole ++ fraction)) (-(fraction.length : Int))

/-- Reads an integer of 64 bits. A refusal stands where the integer would begin. -/
def integer : Reader Int64 := fun text =>
  let (negative, unsigned) := spanSign text
  match unsigned with
  | c :: rest =>
    if '1' ≤ c ∧ c ≤ '9' then
      let (more, after) := spanDigits rest
      match toInt64? (signed negative (digitsValue (c :: more))) with
      | some n => .ok (n, after)
      | none => .error { rest := text }
    else if text.head? = some '0' then
      .ok (0, rest)
    else
      .error { rest := text }
  | [] => .error { rest := text }

/-- Reads a value. -/
def value : Reader Value := do
  layout
  Reader.labelled "value" <| Reader.choice
    [ do return .text (← quoted),
      do return .date (← date),
      do keyword "true"; return .flag true,
      do keyword "false"; return .flag false,
      do return .decimal (← decimal),
      do return .int (← integer) ]

end Bookkeeping.RuleText
