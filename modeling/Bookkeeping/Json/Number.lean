import Bookkeeping.Binary64.Rounding
import Bookkeeping.Json

/-!
# JSON numbers

A number without point and exponent is a whole number if it fits into a word of 64 bits. Any
other number is the nearest one of binary64; when that is infinite, the number stands for no
value.
-/

namespace Bookkeeping.Json

open Bookkeeping.Text

/-- The number nearest to `digits * 10 ^ exponent`, if it is finite. -/
def ofDecimal (negative : Bool) (digits : Nat) (exponent : Int) : Json :=
  let nearest := Binary64.ofDecimal negative digits exponent
  if nearest.isFinite then .decimal nearest else .unreadable

/-- Whether digits without point and exponent are a whole number: up to the largest word without
a sign, down to the least one with a sign, and zero only without one. -/
def isWhole (negative : Bool) (n : Nat) : Bool :=
  if negative then n != 0 && n ≤ Int64.minValue.toInt.natAbs else n < UInt64.size

/-- The number of digits without point and exponent. -/
def ofDigits (negative : Bool) (n : Nat) : Json :=
  if isWhole negative n then .whole (signed negative n) else ofDecimal negative n 0

/-- Reads the digits of an integer part: a zero alone, or digits that start with another. -/
def readWhole? (text : List Char) : Option (List Char × List Char) :=
  match spanDigits text with
  | ([], _) => none
  | (['0'], rest) => some (['0'], rest)
  | ('0' :: _, _) => none
  | found => some found

/-- Reads a fraction, if there is a point. -/
def readFraction? : List Char → Option (List Char × List Char)
  | '.' :: rest =>
    match spanDigits rest with
    | ([], _) => none
    | found => some found
  | chars => some ([], chars)

/-- Reads an exponent, if there is one. -/
def readExponent? : List Char → Option (Option Int × List Char)
  | [] => some (none, [])
  | c :: rest =>
    if c = 'e' ∨ c = 'E' then
      let (negative, unsigned) := spanSign rest
      match spanDigits unsigned with
      | ([], _) => none
      | (digits, rest) => some (some (signed negative (digitsValue digits)), rest)
    else
      some (none, c :: rest)

/-- Reads a number after its sign. -/
def readUnsigned? (negative : Bool) (text : List Char) : Option (Json × List Char) := do
  let (digits, rest) ← readWhole? text
  let (fraction, rest) ← readFraction? rest
  let (exponent, rest) ← readExponent? rest
  if fraction.isEmpty && exponent.isNone then
    return (ofDigits negative (digitsValue digits), rest)
  else
    let places := exponent.getD 0 - fraction.length
    return (ofDecimal negative (digitsValue (digits ++ fraction)) places, rest)

/-- Reads a number. -/
def readNumber? : List Char → Option (Json × List Char)
  | '-' :: rest => readUnsigned? true rest
  | chars => readUnsigned? false chars

end Bookkeeping.Json
