import Bookkeeping.Date
import Bookkeeping.Text.Blank
import Bookkeeping.Text.Numeral

/-!
# Dates as text

A date is written as year, month and day joined by hyphens, with two digits for month and day
and four for a year from 0 to 9999; any other year has a sign and at least four digits.

Reading is more lenient. Each number may follow blanks, month and day may have a single digit,
a year without a sign has one to four digits and one with a sign any number. The spaced form
also allows blanks in front of a hyphen and at the end.
-/

namespace Bookkeeping.Date

open Bookkeeping.Text

/-- A natural number with at least so many digits. -/
def padded (width n : Nat) : List Char :=
  let digits := natDigits n
  List.replicate (width - digits.length) '0' ++ digits

/-- The text of a year. -/
def yearText (year : Int) : List Char :=
  if 0 ≤ year ∧ year ≤ 9999 then
    padded 4 year.toNat
  else
    (if year < 0 then '-' else '+') :: padded 4 year.natAbs

/-- The text of a date. -/
def text (d : Date) : String :=
  String.ofList
    (yearText d.year ++ '-' :: padded 2 d.month ++ '-' :: padded 2 d.day)

/-- Reads one to `most` digits. -/
def readDigits? (most : Nat) (text : List Char) : Option (Nat × List Char) :=
  let digits := (text.take most).takeWhile Char.isDigit
  if digits.isEmpty then
    none
  else
    some (digitsValue digits, text.drop digits.length)

/-- Reads a year: up to four digits, or a sign and any number of digits. -/
def readYear? : List Char → Option (Int × List Char)
  | '-' :: rest => (readDigits? rest.length rest).map fun (n, rest) => (-(n : Int), rest)
  | '+' :: rest => (readDigits? rest.length rest).map fun (n, rest) => ((n : Int), rest)
  | text => (readDigits? 4 text).map fun (n, rest) => ((n : Int), rest)

/-- Passes over a hyphen. -/
def readHyphen? : List Char → Option (List Char)
  | '-' :: rest => some rest
  | _ => none

/-- Reads a whole text as a date. -/
def read? (spaced : Bool) (text : List Char) : Option Date := do
  let pause (rest : List Char) := if spaced then skipBlanks rest else rest
  let (year, rest) ← readYear? (skipBlanks text)
  let rest ← readHyphen? (pause rest)
  let (month, rest) ← readDigits? 2 (skipBlanks rest)
  let rest ← readHyphen? (pause rest)
  let (day, rest) ← readDigits? 2 (skipBlanks rest)
  if (pause rest).isEmpty then
    ofParts? year month day
  else
    none

end Bookkeeping.Date
