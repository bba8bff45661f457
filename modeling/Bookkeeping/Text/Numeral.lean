/-!
# Decimal numerals

Whole numbers are written in ASCII digits, without leading zeros, and a negative one starts
with a minus sign. Reading is more lenient: a plus sign and leading zeros are allowed.
-/

namespace Bookkeeping.Text

/-- The digits of a natural number. -/
def natDigits (n : Nat) : List Char :=
  Nat.toDigits 10 n

/-- The number a run of digits writes. -/
def digitsValue (digits : List Char) : Nat :=
  Nat.ofDigitChars 10 digits 0

/-- The digits of a number have it as their value. -/
theorem digitsValue_natDigits (n : Nat) : digitsValue (natDigits n) = n :=
  Nat.ofDigitChars_toDigits (by decide) (by decide)

/-- The text of a natural number. -/
def natText (n : Nat) : String :=
  String.ofList (natDigits n)

/-- The text of an integer. -/
def intText (z : Int) : String :=
  if z < 0 then "-" ++ natText z.natAbs else natText z.natAbs

/-- The digits a text starts with, and what follows them. -/
def spanDigits (text : List Char) : List Char × List Char :=
  (text.takeWhile Char.isDigit, text.dropWhile Char.isDigit)

/-- The sign a text starts with, as "is negative", and what follows it. -/
def spanSign : List Char → Bool × List Char
  | '-' :: rest => (true, rest)
  | '+' :: rest => (false, rest)
  | text => (false, text)

/-- A natural number with a sign in front. -/
def signed (negative : Bool) (n : Nat) : Int :=
  if negative then -(n : Int) else n

/-- The integer in the range of 64-bit words, if it is there. -/
def toInt64? (z : Int) : Option Int64 :=
  if Int64.minValue.toInt ≤ z ∧ z ≤ Int64.maxValue.toInt then some (Int64.ofInt z) else none

/-- The 64-bit integer is the one of that number. -/
theorem toInt64?_eq_some_iff {z : Int} {n : Int64} : toInt64? z = some n ↔ n.toInt = z := by
  constructor
  · intro h
    unfold toInt64? at h
    split at h
    · rename_i hrange
      obtain rfl := Option.some.inj h
      have hmin : Int64.minValue.toInt = -2 ^ 63 := by decide
      have hmax : Int64.maxValue.toInt = 2 ^ 63 - 1 := by decide
      exact Int64.toInt_ofInt_of_le (by omega) (by omega)
    · cases h
  · rintro rfl
    rw [toInt64?, if_pos ⟨Int64.minValue_le_toInt n, Int64.toInt_le n⟩, Int64.ofInt_toInt]

/-- Reads a whole text as a 64-bit integer: an optional sign and one or more digits. -/
def readInt64? (text : List Char) : Option Int64 :=
  let (negative, digits) := spanSign text
  if digits.isEmpty || !digits.all Char.isDigit then
    none
  else
    toInt64? (signed negative (digitsValue digits))

end Bookkeeping.Text
