import Bookkeeping.Binary64.Shortest
import Bookkeeping.Binary64.Text
import Bookkeeping.Text.Join

/-!
# JSON

A JSON document as a tree, and its compact text: members in their order, no blanks, characters
beyond ASCII as they are. Numbers are whole or binary64; a decimal that is no finite number is
written as `null`.
-/

namespace Bookkeeping

/-- A JSON document. -/
inductive Json where
  | null
  | flag (b : Bool)
  | whole (z : Int)
  | decimal (x : Binary64)
  | text (s : String)
  | array (items : List Json)
  | object (members : List (String × Json))
  /-- A well-formed number or text that stands for no value. -/
  | unreadable

namespace Json

open Bookkeeping.Text

/-- A hexadecimal digit. -/
def hexDigit (n : Nat) : Char :=
  if n < 10 then Char.ofNat (0x30 + n) else Char.ofNat (0x57 + n)

/-- A character inside quotes. Quotes, backslashes and control characters are escaped. -/
def escapeChar (c : Char) : List Char :=
  if c = '"' then ['\\', '"']
  else if c = '\\' then ['\\', '\\']
  else if c = '\n' then ['\\', 'n']
  else if c = '\r' then ['\\', 'r']
  else if c = '\t' then ['\\', 't']
  else if c = '\x08' then ['\\', 'b']
  else if c = '\x0c' then ['\\', 'f']
  else if c.toNat < 0x20 then
    ['\\', 'u', '0', '0', hexDigit (c.toNat / 16), hexDigit (c.toNat % 16)]
  else [c]

/-- A text in quotes. -/
def quote (s : String) : String :=
  "\"" ++ String.ofList (s.toList.flatMap escapeChar) ++ "\""

/-- A decimal in JSON: its exponent is written out when the first digit is below the fifth place
after the point or above the sixteenth before it, and a whole number gets one zero after its
point. -/
def decimalText (d : Decimal) : String :=
  let digits := natDigits d.digits
  let exponent := d.exponent + digits.length - 1
  if -5 ≤ exponent ∧ exponent < 16 then
    String.ofList (d.positional ++ if 0 ≤ d.exponent then ['.', '0'] else [])
  else
    let fraction := digits.drop 1
    let sign := if exponent < 0 then "-" else "+"
    String.ofList (digits.take 1 ++ if fraction.isEmpty then [] else '.' :: fraction) ++ "e" ++
      sign ++ natText exponent.natAbs

/-- A number in JSON, with the fewest digits that read back and a tie between two going to the
even one. -/
def numberText : Binary64 → String
  | .finite negative rank =>
    Binary64.signText negative ++ decimalText (Binary64.shortest .even rank)
  | .infinite _ => "null"
  | .nan => "null"

mutual

/-- The compact text of a document. -/
def compact : Json → String
  | .null => "null"
  | .flag b => if b then "true" else "false"
  | .whole z => intText z
  | .decimal x => numberText x
  | .text s => quote s
  | .array items => "[" ++ Text.joinWith "," (compactItems items) ++ "]"
  | .object members => "\x7b" ++ Text.joinWith "," (compactMembers members) ++ "\x7d"
  | .unreadable => "null"

/-- The compact texts of the items of an array. -/
def compactItems : List Json → List String
  | [] => []
  | item :: rest => compact item :: compactItems rest

/-- The compact texts of the members of an object. -/
def compactMembers : List (String × Json) → List String
  | [] => []
  | (key, value) :: rest => (quote key ++ ":" ++ compact value) :: compactMembers rest

end

mutual

/-- The nesting of arrays and objects. -/
def depth : Json → Nat
  | .array items => 1 + itemsDepth items
  | .object members => 1 + membersDepth members
  | _ => 0

/-- The greatest depth among the items of an array. -/
def itemsDepth : List Json → Nat
  | [] => 0
  | item :: rest => max (depth item) (itemsDepth rest)

/-- The greatest depth among the members of an object. -/
def membersDepth : List (String × Json) → Nat
  | [] => 0
  | (_, value) :: rest => max (depth value) (membersDepth rest)

end

mutual

/-- Whether every part of the document stands for a value. -/
def isReadable : Json → Bool
  | .array items => itemsReadable items
  | .object members => membersReadable members
  | .unreadable => false
  | _ => true

/-- Whether every item of an array is readable. -/
def itemsReadable : List Json → Bool
  | [] => true
  | item :: rest => isReadable item && itemsReadable rest

/-- Whether every member of an object is readable. -/
def membersReadable : List (String × Json) → Bool
  | [] => true
  | (_, value) :: rest => isReadable value && membersReadable rest

end

end Json

end Bookkeeping
