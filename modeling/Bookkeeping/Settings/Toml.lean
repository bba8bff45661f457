import Bookkeeping.Text.Numeral

/-!
# Entries of TOML documents

Settings are the top-level entries of a TOML document whose values are integers, texts or truth
values. The reader knows that part of TOML 1.0 and refuses a document with anything else:
tables, dotted keys, arrays, decimals and dates can be no setting.
-/

namespace Bookkeeping.Toml

open Bookkeeping.Text

/-- The value of an entry. -/
inductive Scalar where
  | integer (n : Int64)
  | text (s : String)
  | flag (b : Bool)

/-- The blanks within a line. -/
def isBlank (c : Char) : Bool :=
  c = ' ' || c = '\t'

/-- The text without the blanks at its front. -/
def skipBlanks (source : List Char) : List Char :=
  source.dropWhile isBlank

/-- Whether a character may stand in a comment, and but for delimiters in a text: the tab and
everything that is no control character of ASCII. -/
def isPlain (c : Char) : Bool :=
  c = '\t' || (0x20 ≤ c.toNat && c.toNat ≤ 0x7e) || 0x80 ≤ c.toNat

/-- What follows a line break at the front of a text. -/
def afterBreak? : List Char → Option (List Char)
  | '\n' :: rest => some rest
  | '\r' :: '\n' :: rest => some rest
  | _ => none

/-- What follows the end of a line: blanks, a comment if there is one, and a line break or the
end of the text. -/
def afterLine? (source : List Char) : Option (List Char) :=
  let rest :=
    match skipBlanks source with
    | '#' :: rest => rest.dropWhile isPlain
    | rest => rest
  if rest.isEmpty then some [] else afterBreak? rest

/-- The value of a hexadecimal digit. -/
def hexValue? (c : Char) : Option Nat :=
  if c.isDigit then some (c.toNat - 0x30)
  else if 'a' ≤ c ∧ c ≤ 'f' then some (c.toNat - 0x57)
  else if 'A' ≤ c ∧ c ≤ 'F' then some (c.toNat - 0x37)
  else none

/-- The number that digits write in a base, if they are digits of it. -/
def digitsIn? (base : Nat) (digits : List Char) : Option Nat :=
  digits.foldlM (fun n c => do
    let digit ← hexValue? c
    if digit < base then some (n * base + digit) else none) 0

/-- The character of so many hexadecimal digits, and what follows them. -/
def readUnicode? (count : Nat) (source : List Char) : Option (Char × List Char) := do
  let digits := source.take count
  if digits.length = count then
    let code ← digitsIn? 16 digits
    if code.isValidChar then some (Char.ofNat code, source.drop count) else none
  else
    none

/-- Reads the rest of an escape: the character it writes, and what follows. -/
def readEscape? : List Char → Option (Char × List Char)
  | 'b' :: rest => some ('\x08', rest)
  | 't' :: rest => some ('\t', rest)
  | 'n' :: rest => some ('\n', rest)
  | 'f' :: rest => some ('\x0c', rest)
  | 'r' :: rest => some ('\r', rest)
  | '"' :: rest => some ('"', rest)
  | '\\' :: rest => some ('\\', rest)
  | 'u' :: rest => readUnicode? 4 rest
  | 'U' :: rest => readUnicode? 8 rest
  | _ => none

/-- How a text is written. -/
structure Style where
  delimiter : Char
  /-- Whether a backslash starts an escape. -/
  escapes : Bool
  /-- Whether the text may go over several lines, between tripled delimiters. -/
  lines : Bool

/-- The text without the line breaks and blanks at its front. -/
def skipBreaks : List Char → List Char
  | [] => []
  | '\r' :: '\n' :: rest => skipBreaks rest
  | c :: rest => if isBlank c || c = '\n' then skipBreaks rest else c :: rest

/-- The text after the line breaks and blanks that follow a backslash at the end of a line. -/
def afterContinuation? (source : List Char) : Option (List Char) :=
  (afterBreak? (skipBlanks source)).map skipBreaks

/-- What the front of a text holds of the content of a quoted text, and what follows; nothing at
the closing delimiter. -/
inductive Piece where
  | content (chars rest : List Char)
  | close (chars rest : List Char)

/-- Reads one piece of the content of a quoted text. Of a run of delimiters in a text over
several lines, one or two are content; the last three of a run of three to five close it. -/
def readPiece? (style : Style) : List Char → Option Piece
  | [] => none
  | c :: rest =>
    if c = style.delimiter then
      if style.lines then
        let more := (rest.takeWhile (· = style.delimiter)).take 4
        let after := rest.drop more.length
        if more.length < 2 then
          some (.content (c :: more) after)
        else
          some (.close (more.drop 2) after)
      else
        some (.close [] rest)
    else if c = '\\' ∧ style.escapes then
      match if style.lines then afterContinuation? rest else none with
      | some after => some (.content [] after)
      | none => (readEscape? rest).map fun (written, after) => .content [written] after
    else if isPlain c then
      some (.content [c] rest)
    else if style.lines then
      (afterBreak? (c :: rest)).map (.content ['\n'] ·)
    else
      none

/-- Reads the content of a quoted text up to its end. -/
def readContent? (style : Style) (source : List Char) : Option (List Char × List Char) :=
  match readPiece? style source with
  | none => none
  | some (.close chars rest) => some (chars, rest)
  | some (.content chars rest) =>
    if rest.length < source.length then
      (readContent? style rest).map fun (others, after) => (chars ++ others, after)
    else
      none
termination_by source.length

/-- The text without a line break at its front. -/
def skipBreak (source : List Char) : List Char :=
  (afterBreak? source).getD source

/-- Reads a text in quotes. -/
def readText? (many : Bool) : List Char → Option (String × List Char)
  | '"' :: '"' :: '"' :: rest =>
    if many then found ⟨'"', true, true⟩ (skipBreak rest) else none
  | '\'' :: '\'' :: '\'' :: rest =>
    if many then found ⟨'\'', false, true⟩ (skipBreak rest) else none
  | '"' :: rest => found ⟨'"', true, false⟩ rest
  | '\'' :: rest => found ⟨'\'', false, false⟩ rest
  | _ => none
where
  /-- The content as a text. -/
  found (style : Style) (source : List Char) : Option (String × List Char) :=
    (readContent? style source).map fun (chars, after) => (String.ofList chars, after)

/-- Reads digits of a base with single underscores between them. -/
def readDigits? (base : Nat) (source : List Char) : Option (Nat × List Char) :=
  let isPart (c : Char) := c = '_' || (digitsIn? base [c]).isSome
  let part := source.takeWhile isPart
  let groups := part.splitOn '_'
  if groups.any (·.isEmpty) then
    none
  else
    (digitsIn? base groups.flatten).map (·, source.drop part.length)

/-- Reads an integer after its sign: digits without leading zeros. -/
def readDecimal? (negative : Bool) (source : List Char) : Option (Int64 × List Char) := do
  if source.head? = some '0' then
    return (0, source.drop 1)
  let (n, rest) ← readDigits? 10 source
  return (← toInt64? (signed negative n), rest)

/-- Reads an integer: with an optional sign, or without one in another base. -/
def readInteger? : List Char → Option (Int64 × List Char)
  | '0' :: 'x' :: rest => based 16 rest
  | '0' :: 'o' :: rest => based 8 rest
  | '0' :: 'b' :: rest => based 2 rest
  | source =>
    let (negative, rest) := spanSign source
    readDecimal? negative rest
where
  /-- The digits of a base. -/
  based (base : Nat) (source : List Char) : Option (Int64 × List Char) := do
    let (n, rest) ← readDigits? base source
    return (← toInt64? n, rest)

/-- Reads the value of an entry. -/
def readScalar? : List Char → Option (Scalar × List Char)
  | 't' :: 'r' :: 'u' :: 'e' :: rest => some (.flag true, rest)
  | 'f' :: 'a' :: 'l' :: 's' :: 'e' :: rest => some (.flag false, rest)
  | c :: rest =>
    if c = '"' ∨ c = '\'' then
      (readText? true (c :: rest)).map fun (s, after) => (.text s, after)
    else
      (readInteger? (c :: rest)).map fun (n, after) => (.integer n, after)
  | [] => none

/-- Reads a key, plain or in quotes. -/
def readKey? (source : List Char) : Option (String × List Char) :=
  let isPart (c : Char) := c.isAlphanum || c = '-' || c = '_'
  match source.takeWhile isPart with
  | [] => readText? false source
  | part => some (String.ofList part, source.drop part.length)

/-- Reads an entry and the end of its line. -/
def readPair? (source : List Char) : Option ((String × Scalar) × List Char) := do
  let (key, rest) ← readKey? source
  match skipBlanks rest with
  | '=' :: rest =>
    let (value, rest) ← readScalar? (skipBlanks rest)
    return ((key, value), ← afterLine? rest)
  | _ => none

/-- Reads the entries of a document, line by line. -/
def readEntries? (source : List Char) : Option (List (String × Scalar)) :=
  match skipBlanks source with
  | [] => some []
  | c :: rest =>
    let line : Option (List (String × Scalar) × List Char) :=
      if c = '#' ∨ c = '\n' ∨ c = '\r' then
        (afterLine? (c :: rest)).map ([], ·)
      else
        (readPair? (c :: rest)).map fun (entry, after) => ([entry], after)
    match line with
    | some (entries, after) =>
      if after.length < source.length then
        (readEntries? after).map (entries ++ ·)
      else
        none
    | none => none
termination_by source.length

/-- Reads a whole document, which may start with a byte order mark. -/
def read? (source : String) : Option (List (String × Scalar)) :=
  match source.toList with
  | [] => some []
  | c :: rest => if c.toNat = 0xfeff then readEntries? rest else readEntries? (c :: rest)

end Bookkeeping.Toml
