import Bookkeeping.Text.Numeral
import Bookkeeping.Binary64.Rounding

/-!
# Numerals of binary64 numbers

A numeral has an optional sign, digits with an optional point among, before or after them, and
an optional exponent. The names of infinity and of "not a number" are read in any letter case.
The number read is the nearest one.
-/

namespace Bookkeeping.Binary64

open Bookkeeping.Text

/-- The exponent part of a numeral: nothing, or `e`, an optional sign and digits. -/
def readExponent? : List Char → Option Int
  | [] => some 0
  | c :: rest =>
    if c = 'e' ∨ c = 'E' then
      let (negative, digits) := spanSign rest
      if digits.isEmpty || !digits.all Char.isDigit then
        none
      else
        some (signed negative (digitsValue digits))
    else
      none

/-- A numeral after its sign: digits, an optional point with more digits, an exponent. -/
def readMagnitude? (negative : Bool) (text : List Char) : Option Binary64 := do
  let (whole, rest) := spanDigits text
  let (fraction, rest) :=
    match rest with
    | '.' :: rest => spanDigits rest
    | rest => ([], rest)
  if whole.isEmpty && fraction.isEmpty then
    none
  let exponent ← readExponent? rest
  return ofDecimal negative (digitsValue (whole ++ fraction)) (exponent - fraction.length)

/-- Reads a whole text as a numeral. -/
def read? (text : List Char) : Option Binary64 :=
  let (negative, rest) := spanSign text
  let name := rest.map Char.toLower
  if name = ['i', 'n', 'f'] ∨ name = ['i', 'n', 'f', 'i', 'n', 'i', 't', 'y'] then
    some (.infinite negative)
  else if name = ['n', 'a', 'n'] then
    some .nan
  else
    readMagnitude? negative rest

end Bookkeeping.Binary64
