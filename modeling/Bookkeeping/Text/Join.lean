/-!
# Joined texts

Texts joined by a separator, which stands between each two neighbours.
-/

namespace Bookkeeping.Text

/-- The texts one after another with the separator between them. -/
def joinWith (separator : String) : List String → String
  | [] => ""
  | [s] => s
  | s :: t :: rest => s ++ separator ++ joinWith separator (t :: rest)

end Bookkeeping.Text
