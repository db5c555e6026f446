import ScriptModules.Yaml.Token

/-!
# The token stream of a document

Outside flow collections the indentation of a line opens and closes collections. A scalar, alias,
tag, anchor or flow collection that a colon follows on the same line is a key, although nothing
marks it in front: its place is remembered, and the token for a key is put there when the colon
comes.
-/

namespace ScriptModules.Yaml

/-- A place where a key may have started. -/
structure PossibleKey where
  /-- The number of tokens before it. -/
  place : Nat
  /-- Nothing but a key can stand there. -/
  required : Bool
  index : Nat
  line : Nat
  column : Nat
  deriving Repr

/-- The tokens read so far, and what is needed to read on. -/
structure Lexing where
  cursor : Cursor
  tokens : List Token := []
  flowLevel : Nat := 0
  indent : Int := -1
  indents : List Int := []
  /-- A key may start at the next token. -/
  keyAllowed : Bool := true
  /-- The possible keys, by their flow level. -/
  possibleKeys : List (Nat × PossibleKey) := []
  deriving Repr

namespace Lexing

/-- Adds a token at the end. -/
def push (s : Lexing) (t : Token) : Lexing := { s with tokens := s.tokens ++ [t] }

/-- Adds a token at an earlier place. -/
def insertAt (s : Lexing) (place : Nat) (t : Token) : Lexing :=
  { s with tokens := s.tokens.take place ++ t :: s.tokens.drop place }

/-- The current column as an indentation. -/
def column (s : Lexing) : Int := s.cursor.column

/-- Skips blanks, comments and line ends; outside flow collections a new line allows a key. -/
def toNextToken : Nat → Lexing → Lexing
  | 0, s => s
  | n + 1, s =>
    let c := s.cursor.skipBlanks
    let c := if c.next? == some '#' then c.skipLine else c
    match c.lineBreak? with
    | some (_, c) =>
      toNextToken n { s with cursor := c, keyAllowed := s.keyAllowed || s.flowLevel == 0 }
    | none => { s with cursor := c }

/-- A possible key is given up on another line or a thousand and twenty-four characters later. -/
def isStale (s : Lexing) (k : PossibleKey) : Bool :=
  k.line != s.cursor.line || 1024 < s.cursor.index - k.index

/-- Gives up stale keys; a required one must not be given up. -/
def dropStaleKeys (s : Lexing) : Option Lexing :=
  if s.possibleKeys.any fun k => s.isStale k.2 && k.2.required then none
  else some { s with possibleKeys := s.possibleKeys.filter fun k => !s.isStale k.2 }

/-- Gives up the possible key of the current flow level. -/
def dropKey (s : Lexing) : Option Lexing :=
  match s.possibleKeys.lookup s.flowLevel with
  | none => some s
  | some k =>
    if k.required then none
    else some { s with possibleKeys := s.possibleKeys.filter fun k => k.1 != s.flowLevel }

/-- Remembers the next token as a possible key. -/
def saveKey (s : Lexing) : Option Lexing := do
  if !s.keyAllowed then return s
  let required := s.flowLevel == 0 && s.indent == s.column
  let s ← s.dropKey
  let k : PossibleKey :=
    ⟨s.tokens.length, required, s.cursor.index, s.cursor.line, s.cursor.column⟩
  return { s with possibleKeys := (s.flowLevel, k) :: s.possibleKeys }

/-- Closes the collections that are indented deeper than a column. -/
def unwindFrom (column : Int) : List Int → Lexing → Lexing
  | [], s => s
  | outer :: rest, s =>
    if column < s.indent then
      unwindFrom column rest { s.push .blockEnd with indent := outer, indents := rest }
    else s

/-- Closes the collections that are indented deeper than a column, outside flow collections. -/
def unwind (s : Lexing) (column : Int) : Lexing :=
  if s.flowLevel == 0 then unwindFrom column s.indents s else s

/-- Opens a collection at a column that is indented deeper, with its token at a place. -/
def indentAt (s : Lexing) (column : Int) (place : Nat) (t : Token) : Lexing :=
  if s.indent < column then
    { s.insertAt place t with indents := s.indent :: s.indents, indent := column }
  else s

/-- Moves over a number of characters and adds a token. -/
def take (s : Lexing) (length : Nat) (t : Token) : Lexing :=
  { s with cursor := s.cursor.move length }.push t

/-- Adds a token that was read up to a cursor. -/
def pushAt (s : Lexing) (t : Token) (c : Cursor) : Lexing :=
  { s with cursor := c }.push t

/-- Closes all collections before a directive or a mark of a document. -/
def atMargin (s : Lexing) : Option Lexing := do
  let s ← (s.unwind (-1)).dropKey
  return { s with keyAllowed := false }

/-- The start of a flow collection. -/
def flowStart (s : Lexing) (t : Token) : Option Lexing := do
  let s ← s.saveKey
  return { s.take 1 t with flowLevel := s.flowLevel + 1, keyAllowed := true }

/-- The end of a flow collection. -/
def flowEnd (s : Lexing) (t : Token) : Option Lexing := do
  let s ← s.dropKey
  return { s.take 1 t with flowLevel := s.flowLevel - 1, keyAllowed := false }

/-- A comma. -/
def flowEntry (s : Lexing) : Option Lexing := do
  let s ← s.dropKey
  return { s.take 1 .flowEntry with keyAllowed := true }

/-- The mark of an entry of a block sequence. -/
def blockEntry (s : Lexing) : Option Lexing := do
  let s ←
    if s.flowLevel == 0 then
      if s.keyAllowed then some (s.indentAt s.column s.tokens.length .blockSequenceStart) else none
    else some s
  let s ← s.dropKey
  return { s.take 1 .blockEntry with keyAllowed := true }

/-- The mark of a key. -/
def markedKey (s : Lexing) : Option Lexing := do
  let s ←
    if s.flowLevel == 0 then
      if s.keyAllowed then some (s.indentAt s.column s.tokens.length .blockMappingStart) else none
    else some s
  let s ← s.dropKey
  return { s.take 1 .key with keyAllowed := s.flowLevel == 0 }

/-- The mark of a value. A possible key on the same flow level becomes a key. -/
def marked (s : Lexing) : Option Lexing := do
  match s.possibleKeys.lookup s.flowLevel with
  | some k =>
    let s := { s with possibleKeys := s.possibleKeys.filter fun k => k.1 != s.flowLevel }
    let s := s.insertAt k.place .key
    let s := if s.flowLevel == 0 then s.indentAt k.column k.place .blockMappingStart else s
    return { s.take 1 .value with keyAllowed := false }
  | none =>
    let s ←
      if s.flowLevel == 0 then
        if s.keyAllowed then some (s.indentAt s.column s.tokens.length .blockMappingStart) else none
      else some s
    let s ← s.dropKey
    return { s.take 1 .value with keyAllowed := s.flowLevel == 0 }

/-- A token that may be a key, read from the cursor on. -/
def keyLike (s : Lexing) (read : Cursor → Except Fault (Token × Cursor)) : Except Fault Lexing := do
  let s ← orMalformed s.saveKey
  let (t, c) ← read s.cursor
  return { s.pushAt t c with keyAllowed := false }

/-- A block scalar. -/
def blockScalar (s : Lexing) (folded : Bool) : Option Lexing := do
  let s ← s.dropKey
  let (text, c) ← readBlockScalar folded s.indent s.cursor.step
  return { s.pushAt (.scalar false text) c with keyAllowed := true }

/-- A plain scalar. A line that ends after it allows a key. -/
def plainScalar (s : Lexing) : Option Lexing := do
  let s ← s.saveKey
  let (text, crossed, c) := readPlain (s.flowLevel != 0) s.indent s.cursor
  return { s.pushAt (.scalar true text) c with keyAllowed := crossed }

/-- A plain scalar may start at the cursor. -/
def startsPlain (s : Lexing) (x : Char) : Bool :=
  let reserved := "-?:,[]\x7b\x7d#&*!|>'\"%@\x60".toList
  !(x == ' ' || x == '\t' || isBreak x || reserved.contains x) ||
    (!isGapOrEnd (s.cursor.ahead? 1) && (x == '-' || (s.flowLevel == 0 && (x == '?' || x == ':'))))

/-- A mark with a gap after it stands at the cursor; inside flow collections the gap is not
needed. -/
def isMark (s : Lexing) : Bool := s.flowLevel != 0 || isGapOrEnd (s.cursor.ahead? 1)

/-- Reads the token that starts with `x`, if it is no quoted scalar and has no name or tag. -/
def readMark (s : Lexing) (x : Char) : Option Lexing :=
  if x == '%' && s.cursor.column == 0 then do
    let s ← s.atMargin
    let (t, c) ← readDirective s.cursor.step
    return s.pushAt t c
  else if s.cursor.column == 0 && s.cursor.atMark "---" then do
    return (← s.atMargin).take 3 .documentStart
  else if s.cursor.column == 0 && s.cursor.atMark "..." then do
    return (← s.atMargin).take 3 .documentEnd
  else if x == '[' then s.flowStart .flowSequenceStart
  else if x == '\x7b' then s.flowStart .flowMappingStart
  else if x == ']' then s.flowEnd .flowSequenceEnd
  else if x == '\x7d' then s.flowEnd .flowMappingEnd
  else if x == ',' then s.flowEntry
  else if x == '-' && isGapOrEnd (s.cursor.ahead? 1) then s.blockEntry
  else if x == '?' && s.isMark then s.markedKey
  else if x == ':' && s.isMark then s.marked
  else if x == '|' && s.flowLevel == 0 then s.blockScalar false
  else if x == '>' && s.flowLevel == 0 then s.blockScalar true
  else if s.startsPlain x then s.plainScalar
  else none

/-- Reads the token that starts with `x`. -/
def readToken (s : Lexing) (x : Char) : Except Fault Lexing :=
  match x with
  | '*' => s.keyLike fun c => (orMalformed (readAnchor c.step)).map fun (n, c) => (.alias n, c)
  | '&' => s.keyLike fun c => (orMalformed (readAnchor c.step)).map fun (n, c) => (.anchor n, c)
  | '!' => s.keyLike fun c => (orMalformed (readTag c)).map fun (t, c) => (.tag t, c)
  | '\x27' => s.keyLike fun c => (readQuoted false c.step).map fun (t, c) => (.scalar false t, c)
  | '"' => s.keyLike fun c => (readQuoted true c.step).map fun (t, c) => (.scalar false t, c)
  | x => orMalformed (s.readMark x)

/-- Reads tokens up to the end; each takes at least one character, so the length of the document
bounds their number. -/
def run : Nat → Lexing → Except Fault (List Token)
  | 0, _ => throw .malformed
  | n + 1, s => do
    let s := toNextToken (s.cursor.rest.length + 1) s
    let s ← orMalformed s.dropStaleKeys
    let s := s.unwind s.column
    match s.cursor.next? with
    | none =>
      let s ← orMalformed (s.unwind (-1)).dropKey
      return s.tokens
    | some x => run n (← s.readToken x)

end Lexing

/-- A character that documents may hold. -/
def isAllowed (c : Char) : Bool :=
  let n := c.toNat
  n == 9 || n == 10 || n == 13 || (0x20 ≤ n && n ≤ 0x7e) || n == 0x85 || (0xa0 ≤ n && n ≤ 0xd7ff) ||
    (0xe000 ≤ n && n ≤ 0xfffd) || 0x10000 ≤ n

/-- The tokens of a document; a byte order mark at its start does not count. -/
def tokens? (text : List Char) : Except Fault (List Token) :=
  if text.all isAllowed then
    let c : Cursor := { rest := text }
    let c := if text.head? == some '\ufeff' then c.step else c
    Lexing.run (text.length + 2) { cursor := c }
  else throw .malformed

end ScriptModules.Yaml
