import CoreEngines.Text.Hex
import CoreEngines.Text.Shapeless

/-!
Quoted text: a string between double quotes, in which quotes, backslashes and what cannot be seen
are spelled out.
-/

namespace CoreEngines.Text.Quoted

/-- Characters that are spelled out in a way of their own. -/
def spelled : List (Char × String) :=
  [('"', "\\\""), ('\\', "\\\\"), ('\n', "\\n"), ('\r', "\\r"), ('\t', "\\t"), ('\x00', "\\0")]

/-- A character as it stands inside quoted text. -/
def char (char : Char) : String :=
  match spelled.lookup char with
  | some text => text
  | none =>
      if isShapeless char then "\\u\x7b" ++ Hex.word char.toNat.toUInt64 ++ "\x7d"
      else char.toString

def text (content : String) : String :=
  "\"" ++ String.join (content.toList.map char) ++ "\""

end CoreEngines.Text.Quoted
