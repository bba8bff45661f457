import Bookkeeping.Json.Number

/-!
# Reading JSON

A text is a document when it is one value with blanks around it. A text in quotes holds no
control characters; its escaped units above the basic plane come in pairs, and a text where
they do not, like a number beyond the format, is well formed but stands for no value.
-/

namespace Bookkeeping.Json

/-- The blanks of JSON. -/
def isBlank (c : Char) : Bool :=
  c = ' ' || c = '\t' || c = '\n' || c = '\r'

/-- The text without the blanks at its front. -/
def skipBlanks (text : List Char) : List Char :=
  text.dropWhile isBlank

/-- The value of a hexadecimal digit. -/
def hexValue? (c : Char) : Option Nat :=
  if c.isDigit then some (c.toNat - 0x30)
  else if 'a' ≤ c ∧ c ≤ 'f' then some (c.toNat - 0x57)
  else if 'A' ≤ c ∧ c ≤ 'F' then some (c.toNat - 0x37)
  else none

/-- The value of four hexadecimal digits. -/
def unitValue? (a b c d : Char) : Option Nat := do
  return ((← hexValue? a) * 16 + (← hexValue? b)) * 256 + (← hexValue? c) * 16 + (← hexValue? d)

/-- What stands in quotes: a character, or an escaped unit of 16 bits. -/
inductive Piece where
  | char (c : Char)
  | unit (n : Nat)

/-- The character of an escape that is no unit. -/
def simpleEscape? (c : Char) : Option Char :=
  match c with
  | '"' => some '"'
  | '\\' => some '\\'
  | '/' => some '/'
  | 'b' => some '\x08'
  | 'f' => some '\x0c'
  | 'n' => some '\n'
  | 'r' => some '\r'
  | 't' => some '\t'
  | _ => none

/-- Reads the pieces of a text up to its closing quote. -/
def readPieces? : List Char → Option (List Piece × List Char)
  | [] => none
  | '"' :: rest => some ([], rest)
  | '\\' :: 'u' :: a :: b :: c :: d :: rest => do
    let n ← unitValue? a b c d
    let (pieces, after) ← readPieces? rest
    return (.unit n :: pieces, after)
  | '\\' :: c :: rest => do
    let plain ← simpleEscape? c
    let (pieces, after) ← readPieces? rest
    return (.char plain :: pieces, after)
  | c :: rest =>
    if c.toNat < 0x20 then
      none
    else do
      let (pieces, after) ← readPieces? rest
      return (.char c :: pieces, after)

/-- The first unit of a pair. -/
def isHigh (n : Nat) : Bool :=
  0xd800 ≤ n && n ≤ 0xdbff

/-- The second unit of a pair. -/
def isLow (n : Nat) : Bool :=
  0xdc00 ≤ n && n ≤ 0xdfff

/-- The characters of pieces, if all units above the basic plane are paired. -/
def joinPieces? : List Piece → Option (List Char)
  | [] => some []
  | .char c :: rest => (joinPieces? rest).map (c :: ·)
  | .unit high :: .unit low :: rest =>
    if isHigh high then
      if isLow low then
        (joinPieces? rest).map
          (Char.ofNat (0x10000 + (high - 0xd800) * 0x400 + (low - 0xdc00)) :: ·)
      else
        none
    else if isLow high then
      none
    else
      (joinPieces? (.unit low :: rest)).map (Char.ofNat high :: ·)
  | .unit n :: rest =>
    if isHigh n || isLow n then none else (joinPieces? rest).map (Char.ofNat n :: ·)

/-- Reads a text after its opening quote: the text, if it stands for one, and what follows. -/
def readText? (text : List Char) : Option (Option String × List Char) :=
  (readPieces? text).map fun (pieces, rest) => ((joinPieces? pieces).map String.ofList, rest)

section Lists

variable {α : Type}

/-- Reads what follows an item: more items after commas, or the closing bracket. -/
def readMore? (item : List Char → Option (α × List Char)) (close : Char) (text : List Char) :
    Option (List α × List Char) :=
  match skipBlanks text with
  | [] => none
  | c :: rest =>
    if c = ',' then
      match item rest with
      | none => none
      | some (found, after) =>
        if after.length < text.length then
          (readMore? item close after).map fun (others, after) => (found :: others, after)
        else
          none
    else if c = close then
      some ([], rest)
    else
      none
termination_by text.length

/-- Reads items up to a closing bracket. -/
def readItems? (item : List Char → Option (α × List Char)) (close : Char) (text : List Char) :
    Option (List α × List Char) :=
  match skipBlanks text with
  | [] => none
  | c :: rest =>
    if c = close then
      some ([], rest)
    else do
      let (found, after) ← item (c :: rest)
      let (others, after) ← readMore? item close after
      return (found :: others, after)

end Lists

/-- Reads a member of an object. -/
def readMember? (value : List Char → Option (Json × List Char)) (text : List Char) :
    Option ((Option String × Json) × List Char) :=
  match skipBlanks text with
  | '"' :: rest => do
    let (key, rest) ← readText? rest
    match skipBlanks rest with
    | ':' :: rest =>
      let (found, rest) ← value rest
      return ((key, found), rest)
    | _ => none
  | _ => none

/-- The members of an object, if each key stands for a text. -/
def ofMembers (members : List (Option String × Json)) : Json :=
  match members.mapM fun (key, value) => key.map (·, value) with
  | some members => .object members
  | none => .unreadable

/-- Reads a word for a value. -/
def readWord? (word : List Char) (value : Json) (text : List Char) :
    Option (Json × List Char) :=
  if word.isPrefixOf text then some (value, text.drop word.length) else none

/-- Reads a value with less nesting than the bound. -/
def readValue? : Nat → List Char → Option (Json × List Char)
  | 0, _ => none
  | bound + 1, source =>
    match skipBlanks source with
    | [] => none
    | c :: rest =>
      if c = '"' then
        (readText? rest).map fun (found, after) => (found.elim .unreadable .text, after)
      else if c = '[' then
        (readItems? (readValue? bound) ']' rest).map fun (items, after) => (.array items, after)
      else if c = '\x7b' then
        (readItems? (readMember? (readValue? bound)) '\x7d' rest).map fun (members, after) =>
          (ofMembers members, after)
      else if c = 'n' then readWord? ['n', 'u', 'l', 'l'] .null (c :: rest)
      else if c = 't' then readWord? ['t', 'r', 'u', 'e'] (.flag true) (c :: rest)
      else if c = 'f' then readWord? ['f', 'a', 'l', 's', 'e'] (.flag false) (c :: rest)
      else readNumber? (c :: rest)

/-- Reads a whole text as a document. A value nests less than it has characters. -/
def read? (text : String) : Option Json :=
  let chars := text.toList
  match readValue? (chars.length + 1) chars with
  | some (value, rest) => if (skipBlanks rest).isEmpty then some value else none
  | none => none

end Bookkeeping.Json
