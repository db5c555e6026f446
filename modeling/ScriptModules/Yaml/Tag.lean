import ScriptModules.Pattern.Search

/-!
# Tags

Every node of a document has a tag that says what it stands for. A plain scalar without a written
tag has the tag of its form: numbers may have underscores and be written in base two, eight, sixteen
and sixty, and several words stand for the truth values.
-/

namespace ScriptModules.Yaml

open Pattern.Node

/-- The kinds of nodes. -/
inductive Tag where
  | null
  | bool
  | int
  | float
  | binary
  | timestamp
  | omap
  | pairs
  | set
  | str
  | seq
  | map
  | merge
  | value
  | other (text : String)
  deriving DecidableEq, Repr

namespace Tag

/-- What all standard tags start with. -/
def standardStart : String := "tag:yaml.org,2002:"

/-- The standard tags by name. -/
def standard : List (String × Tag) :=
  [("null", null), ("bool", bool), ("int", int), ("float", float), ("binary", binary),
    ("timestamp", timestamp), ("omap", omap), ("pairs", pairs), ("set", set), ("str", str),
    ("seq", seq),
    ("map", map), ("merge", merge), ("value", value)]

/-- The tag of a text. -/
def ofText (s : String) : Tag :=
  (standard.find? fun p => standardStart ++ p.1 == s).elim (other s) (·.2)

end Tag

/-! ### Forms -/

namespace Form

/-- One of the given characters. -/
def oneOf (s : String) : Pattern.Node := .set ⟨s.toList.map .char, false, .exact⟩

/-- A decimal digit. -/
def digit : Pattern.CharSet := ⟨[.range 48 57], false, .exact⟩

/-- A decimal digit or an underscore. -/
def digitOrLow : Pattern.CharSet := ⟨[.range 48 57, .char '_'], false, .exact⟩

/-- A sign, or none. -/
def sign : Pattern.Node := optional (oneOf "-+")

/-- Some words as alternatives. -/
def words (ws : List String) : Pattern.Node := choice (ws.map word)

/-- The whole of a text. -/
def whole (n : Pattern.Node) : Pattern.Node := sequence [.anchor .start, n, .anchor .finish]

/-- A truth value. -/
def bool : Pattern.Node := whole (words
  ["yes", "Yes", "YES", "no", "No", "NO", "true", "True", "TRUE", "false", "False", "FALSE",
    "on", "On", "ON", "off", "Off", "OFF"])

/-- An exponent, or none. -/
def exponent : Pattern.Node := optional (sequence [oneOf "eE", oneOf "-+", oneOrMore (.set digit)])

/-- Further places in base sixty. -/
def sixties : Pattern.Node := oneOrMore (sequence [
  char ':', optional (.set ⟨[.range 48 53], false, .exact⟩), .set digit])

/-- A number with a point. -/
def float : Pattern.Node := whole (choice [
  sequence [sign, .set digit, many (.set digitOrLow), char '.', many (.set digitOrLow), exponent],
  sequence [char '.', .set digit, many (.set digitOrLow), exponent],
  sequence [sign, .set digit, many (.set digitOrLow), sixties, char '.', many (.set digitOrLow)],
  sequence [sign, char '.', words ["inf", "Inf", "INF"]],
  sequence [char '.', words ["nan", "NaN", "NAN"]]])

/-- A digit of a decimal number that is not zero. -/
def leading : Pattern.Node := .set ⟨[.range 49 57], false, .exact⟩

/-- A whole number. -/
def int : Pattern.Node := whole (choice [
  sequence [sign, word "0b", oneOrMore (oneOf "01_")],
  sequence [sign, char '0', oneOrMore (.set ⟨[.range 48 55, .char '_'], false, .exact⟩)],
  sequence [sign, choice [char '0', sequence [leading, many (.set digitOrLow)]]],
  sequence [sign, word "0x", oneOrMore (.set
    ⟨[.range 48 57, .range 97 102, .range 65 70, .char '_'], false, .exact⟩)],
  sequence [sign, leading, many (.set digitOrLow), sixties]])

/-- Nothing. -/
def null : Pattern.Node := whole (choice [word "~", word "null", word "Null", word "NULL", .empty])

/-- Exactly two digits. -/
def twoDigits : Pattern.Node := .loop .greedy 2 (some 2) (.set digit)

/-- One or two digits. -/
def upToTwoDigits : Pattern.Node := sequence [.set digit, optional (.set digit)]

/-- Four digits of a year. -/
def year : Pattern.Node := .loop .greedy 4 (some 4) (.set digit)

/-- A blank or a tab. -/
def gapChar : Pattern.CharSet := ⟨[.char ' ', .char '\t'], false, .exact⟩

/-- A day, or a moment with its parts as groups: year, month, day, hour, minute, second, fraction,
zone, sign, hours and minutes of the zone. -/
def moment : Pattern.Node := sequence [
  .anchor .start,
  .group 1 year, char '-', .group 2 upToTwoDigits, char '-', .group 3 upToTwoDigits,
  optional (sequence [
    choice [oneOf "Tt", oneOrMore (.set gapChar)],
    .group 4 upToTwoDigits, char ':', .group 5 twoDigits, char ':', .group 6 twoDigits,
    optional (sequence [char '.', .group 7 (many (.set digit))]),
    optional (sequence [
      many (.set gapChar),
      .group 8 (choice [
        char 'Z',
        sequence [
          .group 9 (oneOf "-+"), .group 10 upToTwoDigits,
          optional (sequence [char ':', .group 11 twoDigits])]])])]),
  .anchor .finish]

/-- A plain scalar that is a day or a moment; a day alone has all its digits. -/
def timestamp : Pattern.Node := whole (choice [
  sequence [year, char '-', twoDigits, char '-', twoDigits],
  sequence [
    year, char '-', upToTwoDigits, char '-', upToTwoDigits,
    choice [oneOf "Tt", oneOrMore (.set gapChar)],
    upToTwoDigits, char ':', twoDigits, char ':', twoDigits,
    optional (sequence [char '.', many (.set digit)]),
    optional (sequence [
      many (.set gapChar),
      choice [
        char 'Z',
        sequence [oneOf "-+", upToTwoDigits, optional (sequence [char ':', twoDigits])]]])]])

end Form

/-- The text has the form. -/
def hasForm (form : Pattern.Node) (s : List Char) : Bool := (form.matchStart s).isSome

/-- The tag of a plain scalar. -/
def plainTag (text : String) : Tag :=
  let s := text.toList
  if s == ['\n'] then .str
  else if hasForm Form.bool s then .bool
  else if hasForm Form.float s then .float
  else if hasForm Form.int s then .int
  else if s == ['<', '<'] then .merge
  else if hasForm Form.null s then .null
  else if hasForm Form.timestamp s then .timestamp
  else if s == ['='] then .value
  else .str

end ScriptModules.Yaml
