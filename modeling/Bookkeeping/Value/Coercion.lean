import Bookkeeping.Value
import Bookkeeping.Binary64.Numeral
import Bookkeeping.Binary64.Text
import Bookkeeping.Date.Text

/-!
# Values read as another kind

A condition type fixes the kind of value its column holds, and a value given to it is read as
that kind. Texts are read as numbers and dates after trimming; a text that is a 64-bit integer
keeps its exact value, any other numeral passes through the nearest decimal. Flags have no
other reading.
-/

namespace Bookkeeping

/-- The kind of number a column holds. -/
inductive NumberKind where
  | integer
  | decimal
  deriving DecidableEq

namespace Value

open Bookkeeping.Text

/-- A decimal that is a whole number in the range of 64-bit integers, as an integer. -/
def wholeNumber? (x : Binary64) : Option Int64 :=
  x.toInt?.bind toInt64?

/-- An integer as a number of the kind. -/
def ofInt64 (kind : NumberKind) (n : Int64) : Value :=
  match kind with
  | .integer => .int n
  | .decimal => .decimal (Binary64.ofInt n.toInt)

/-- A finite decimal as a number of the kind; a fraction is no integer. -/
def ofBinary64? (kind : NumberKind) (x : Binary64) : Option Value :=
  if x.isFinite then
    match kind with
    | .integer => (wholeNumber? x).map .int
    | .decimal => some (.decimal x)
  else
    none

/-- The value as a number of the kind. -/
def number? (kind : NumberKind) : Value → Option Value
  | .int n => some (ofInt64 kind n)
  | .decimal x => ofBinary64? kind x
  | .text s =>
    let numeral := trim s.toList
    match readInt64? numeral with
    | some n => some (ofInt64 kind n)
    | none => (Binary64.read? numeral).bind (ofBinary64? kind)
  | .flag _ => none
  | .date _ => none

/-- The value as plain text. -/
def text? : Value → Option String
  | .text s => some s
  | .int n => some (intText n.toInt)
  | .decimal x => some x.text
  | .date d => some d.text
  | .flag _ => none

/-- The value as a date. -/
def date? : Value → Option Date
  | .date d => some d
  | .text s => Date.read? false (trim s.toList)
  | _ => none

/-- The value as it appears in messages: a text stands in quotes, as it is. -/
def display : Value → String
  | .int n => intText n.toInt
  | .decimal x => x.text
  | .flag b => if b then "true" else "false"
  | .text s => "\"" ++ s ++ "\""
  | .date d => d.text

end Value

end Bookkeeping
