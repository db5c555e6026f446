import ScriptModules.Text.Letter
import ScriptModules.Text.Numeral

/-!
# Word characters

Letters and numerals of any script with the underscore form words; with the dollar sign too they
form the identifiers of scripts.
-/

namespace ScriptModules.Text

/-- A letter or a numeral. -/
def isAlphanumeric (c : Char) : Bool :=
  if c.toNat < 128 then c.isAlphanum else isLetter c || isNumeral c

/-- A character of a word. -/
def isWord (c : Char) : Bool :=
  isAlphanumeric c || c == '_'

/-- A character of a word of ASCII text. -/
def isAsciiWord (c : Char) : Bool :=
  c.isAlphanum || c == '_'

/-- A character of an identifier. -/
def isIdent (c : Char) : Bool :=
  isWord c || c == '$'

end ScriptModules.Text
