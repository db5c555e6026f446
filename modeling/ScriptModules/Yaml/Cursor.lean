import ScriptModules.Text.Digit

/-!
# Reading positions

A position in a document with its line and column, and the classes of characters that matter for its
layout. Past the end there is no character.
-/

namespace ScriptModules.Yaml

/-- The rest of a document, with the position where it starts. -/
structure Cursor where
  rest : List Char
  index : Nat := 0
  line : Nat := 0
  column : Nat := 0
  deriving Repr

/-- A character that ends a line. -/
def isBreak (c : Char) : Bool :=
  c == '\n' || c == '\r' || c == '\x85' || c == '\u2028' || c == '\u2029'

/-- The end, or a character that ends a line. -/
def isBreakOrEnd (c : Option Char) : Bool := c.all isBreak

/-- The end, a blank, or a character that ends a line. -/
def isSpaceOrEnd (c : Option Char) : Bool := c.all fun c => c == ' ' || isBreak c

/-- The end, a blank or tab, or a character that ends a line. -/
def isGapOrEnd (c : Option Char) : Bool := c.all fun c => c == ' ' || c == '\t' || isBreak c

/-- A letter, digit, minus sign or underscore. -/
def isNameChar (c : Char) : Bool := c.isAlphanum || c == '-' || c == '_'

namespace Cursor

/-- The next character. -/
def next? (c : Cursor) : Option Char := c.rest.head?

/-- The character `n` places ahead. -/
def ahead? (c : Cursor) (n : Nat) : Option Char := c.rest[n]?

/-- Moves over the next character. A byte order mark takes no column. -/
def step (c : Cursor) : Cursor :=
  match c.rest with
  | [] => c
  | x :: rest =>
    if isBreak x && !(x == '\r' && rest.head? == some '\n') then ⟨rest, c.index + 1, c.line + 1, 0⟩
    else if x == '\ufeff' then ⟨rest, c.index + 1, c.line, c.column⟩
    else ⟨rest, c.index + 1, c.line, c.column + 1⟩

/-- Moves over a number of characters. -/
def move : Nat → Cursor → Cursor
  | 0, c => c
  | n + 1, c => move n c.step

/-- The characters of a class at the cursor. -/
def run (c : Cursor) (p : Char → Bool) : List Char := c.rest.takeWhile p

/-- Moves over the characters of a class. -/
def skip (c : Cursor) (p : Char → Bool) : Cursor := c.move (c.run p).length

/-- Moves over blanks. -/
def skipBlanks (c : Cursor) : Cursor := c.skip (· == ' ')

/-- Moves over the rest of the line, but not over its end. -/
def skipLine (c : Cursor) : Cursor := c.skip (!isBreak ·)

/-- The text at the cursor starts with the given one. -/
def startsWith (c : Cursor) (s : String) : Bool := s.toList.isPrefixOf c.rest

/-- The mark of a document's start or end stands here. -/
def atMark (c : Cursor) (mark : String) : Bool := c.startsWith mark && isGapOrEnd (c.ahead? 3)

/-- Some mark of a document's start or end stands here. -/
def atSeparator (c : Cursor) : Bool := c.atMark "---" || c.atMark "..."

/-- Moves over the end of a line and gives the character that it counts as. -/
def lineBreak? (c : Cursor) : Option (Char × Cursor) :=
  match c.rest with
  | '\r' :: '\n' :: _ => some ('\n', c.move 2)
  | x :: _ =>
    if x == '\u2028' || x == '\u2029' then some (x, c.step)
    else if isBreak x then some ('\n', c.step)
    else none
  | [] => none

/-- Moves over blanks and a comment to the end of the line, and over that end. Anything else on the
line is refused. -/
def restOfLine? (c : Cursor) : Option Cursor :=
  let c := c.skipBlanks
  let c := if c.next? == some '#' then c.skipLine else c
  if isBreakOrEnd c.next? then
    match c.lineBreak? with
    | some (_, c) => some c
    | none => some c
  else none

end Cursor

end ScriptModules.Yaml
