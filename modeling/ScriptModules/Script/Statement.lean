import ScriptModules.Pattern.Search

/-!
# Module statements

Patterns of import and export statements and of their items.
-/

namespace ScriptModules.Statement

open Pattern Pattern.Node

/-- Neither an identifier character nor a dot stands right before. -/
def standalone : Node := .look (.behind 1) true (.set (.identOr ['.']))

/-- The characters of a list of names. -/
def listed : CharSet :=
  ⟨[.kind .word .unicode false, .char '$', .kind .blank .unicode false, .char ','], false, .exact⟩

/-- The quotes of a source. -/
def quotes : CharSet := ⟨[.char '\x27', .char '"'], false, .exact⟩

/-- All but the quotes of a source. -/
def unquoted : CharSet := ⟨[.char '\x27', .char '"'], true, .exact⟩

/-- A list in braces, with its inside as group 1. -/
def braceList : Node := sequence [
  char '\x7b', .group 1 (many (.set (.allBut '\x7d'))), char '\x7d']

/-- A list of names in braces. -/
def nameList : Node := sequence [char '\x7b', oneOrMore (.set listed), char '\x7d']

/-- What may stand between an import and its source: lists in braces and names, each before
blanks. -/
def clause : Node := oneOrMore (sequence [
  choice [nameList, oneOrMore (.set (.identOr [',', '*', '-']))], gap])

/-- An import up to the word before its source, with the clause as group 1. -/
def importClause : Node := sequence [
  word "import", gap, .group 1 clause, word "from", wordEdge]

/-- An import with the rest of its line. -/
def importLine : Node := sequence [
  word "import", gap, clause, word "from", oneOrMore (.set (.allBut '\n'))]

/-- An import of everything under one name. -/
def namespaceImport : Node := sequence [char '*', blanks, word "as", gap, identifier]

/-- An item that an import may list. -/
def importItem : Node := sequence [
  identifier, optional (sequence [word " as ", identifier])]

/-- An export statement: a list in braces as group 1, with its source as group 3 if it has one, or a
declaration of the name in group 4. -/
def exportStatement : Node := sequence [
  standalone, word "export", blanks,
  choice [
    sequence [
      braceList, blanks,
      optional (sequence [
        word "from", blanks, .group 2 (.set quotes), .group 3 (oneOrMore (.set unquoted)),
        .backref 2 .exact])],
    sequence [
      choice [word "var", word "let", word "const",
        sequence [word "function", blanks, optional (char '*')], word "class"],
      gap, .group 4 identifier]]]

/-- An export list in braces, with its source and a semicolon if they follow. -/
def exportList : Node := sequence [
  wordEdge, word "export", blanks, nameList, blanks,
  optional (sequence [
    word "from", blanks, .set quotes, oneOrMore (.set (.identOr ['.', '/', '-'])), .set quotes]),
  optional (char ';')]

/-- The word `export`, a blank and a keyword, as whole words. -/
def exported (keyword : Node) : Node := sequence [
  wordEdge, word "export", char ' ', keyword, wordEdge]

/-- A renamed item: the name as group 1 and the new name as group 2. -/
def renamedItem : Node := sequence [
  .anchor .start, .group 1 identifier, gap, word "as", gap, .group 2 identifier, .anchor .finish]

/-- An item that is one identifier. -/
def loneIdentifier : Node := sequence [.anchor .start, identifier, .anchor .finish]

/-- A property: its key as group 1 and its value, if it has one, as group 2. -/
def property : Node := sequence [
  .anchor .start, .group 1 identifier,
  optional (sequence [blanks, char ':', blanks, .group 2 identifier]), .anchor .finish]

end ScriptModules.Statement
