import Bookkeeping.RuleText
import Bookkeeping.Settings.Text

/-!
# Files of rules and settings

The content of a file is given as bytes, or not at all when there is no such file. Only a file
whose bytes are UTF-8 is read as text.
-/

namespace Bookkeeping

/-- Why a file gives no result. -/
inductive FileError (ε : Type) where
  /-- There is no file, or it is no text. -/
  | unreadable
  /-- The text of the file is refused. -/
  | refused (cause : ε)

/-- Reads the content of a file by a reader of texts. -/
def readFile {ε α : Type} (read : String → Except ε α) (content : Option ByteArray) :
    Except (FileError ε) α :=
  match content.bind String.fromUTF8? with
  | none => .error .unreadable
  | some text => (read text).mapError .refused

/-- The rules of a file. -/
def RuleText.parseFile : Option ByteArray → Except (FileError ParseError) (List Rule) :=
  readFile RuleText.parse

/-- The settings of a file. -/
def Settings.parseFile : Option ByteArray → Except (FileError SettingsError) Settings :=
  readFile Settings.parse

end Bookkeeping
