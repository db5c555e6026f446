import ScriptModules.Text.Utf8
import ScriptModules.Yaml.Cursor
import ScriptModules.Yaml.Fault

/-!
# Tokens of documents

The tokens of a structured document and the forms of those that carry text: directives, anchors,
tags, and scalars that are plain, quoted or in blocks. Text that has none of these forms is refused.
-/

namespace ScriptModules.Yaml

/-- A tag as written: a handle, which stands for a beginning, and the rest. -/
structure TagText where
  handle : Option String
  suffix : String
  deriving DecidableEq, Repr

/-- A token. -/
inductive Token where
  | versionDirective (major minor : Nat)
  | tagDirective (handle start : String)
  | otherDirective
  | documentStart
  | documentEnd
  | blockSequenceStart
  | blockMappingStart
  | blockEnd
  | flowSequenceStart
  | flowSequenceEnd
  | flowMappingStart
  | flowMappingEnd
  | flowEntry
  | blockEntry
  | key
  | value
  | alias (name : String)
  | anchor (name : String)
  | tag (t : TagText)
  | scalar (plain : Bool) (text : String)
  deriving DecidableEq, Repr

/-- Reads a name of letters, digits, minus signs and underscores. -/
def readName (c : Cursor) : Option (String × Cursor) :=
  let name := c.run isNameChar
  if name.isEmpty then none else some (String.ofList name, c.move name.length)

/-- Reads a number. -/
def readNumber (c : Cursor) : Option (Nat × Cursor) :=
  let digits := c.run Char.isDigit
  if digits.isEmpty then none else some (Text.numberIn 10 digits, c.move digits.length)

/-- Reads bytes that are written as escapes in a tag; the first argument bounds their number. -/
def readByteEscapes : Nat → Cursor → Option (List UInt8 × Cursor)
  | 0, c => some ([], c)
  | n + 1, c =>
    match c.rest with
    | '%' :: a :: b :: _ =>
      if Text.isHex a && Text.isHex b then do
        let (bytes, c) ← readByteEscapes n (c.move 3)
        return ((Text.numberIn 16 [a, b]).toUInt8 :: bytes, c)
      else none
    | '%' :: _ => none
    | _ => some ([], c)

/-- A character of a tag. -/
def isTagChar (c : Char) : Bool :=
  c.isAlphanum || "-;/?:@&=+$,_.!~*'()[]%".toList.contains c

/-- Reads the text of a tag, with escaped bytes; the first argument bounds the number of steps. -/
def readTagChars : Nat → Cursor → Option (List Char × Cursor)
  | 0, c => some ([], c)
  | n + 1, c =>
    match c.next? with
    | some '%' => do
      let (bytes, c) ← readByteEscapes c.rest.length c
      let decoded := Text.decodePart bytes
      if decoded.stop.isSome then none
      let (more, c) ← readTagChars n c
      return (decoded.text ++ more, c)
    | some x =>
      if isTagChar x then do
        let (more, c) ← readTagChars n c.step
        return (x :: more, c)
      else some ([], c)
    | none => some ([], c)

/-- Reads the text of a tag, which must not be empty. -/
def readTagText (c : Cursor) : Option (String × Cursor) := do
  let (text, after) ← readTagChars (c.rest.length + 1) c
  if after.index == c.index then none
  return (String.ofList text, after)

/-- Reads the handle of a tag. -/
def readHandle (c : Cursor) : Option (String × Cursor) := do
  if c.next? != some '!' then none
  let name := c.step.run isNameChar
  let after := c.step.move name.length
  if after.next? == some '!' then
    return (String.ofList ('!' :: name ++ ['!']), after.step)
  else if name.isEmpty && after.next? == some ' ' then
    return ("!", after)
  else none

/-- Reads a directive after its percent sign, with the rest of its line. -/
def readDirective (c : Cursor) : Option (Token × Cursor) := do
  let (name, c) ← readName c
  if !isSpaceOrEnd c.next? then none
  let (token, c) ←
    if name == "YAML" then do
      let (major, c) ← readNumber c.skipBlanks
      if c.next? != some '.' then none
      let (minor, c) ← readNumber c.step
      if !isSpaceOrEnd c.next? then none
      some (Token.versionDirective major minor, c)
    else if name == "TAG" then do
      let (handle, c) ← readHandle c.skipBlanks
      if c.next? != some ' ' then none
      let (start, c) ← readTagText c.skipBlanks
      if !isSpaceOrEnd c.next? then none
      some (Token.tagDirective handle start, c)
    else some (Token.otherDirective, c.skipLine)
  let c ← c.restOfLine?
  return (token, c)

/-- A character that may follow an anchor. -/
def endsAnchor (c : Option Char) : Bool :=
  isGapOrEnd c || c.any fun c => "?:,]\x7d%@\x60".toList.contains c

/-- Reads the name of an anchor after its mark. -/
def readAnchor (c : Cursor) : Option (String × Cursor) := do
  let (name, c) ← readName c
  if endsAnchor c.next? then return (name, c) else none

/-- Reads a tag at its exclamation mark. -/
def readTag (c : Cursor) : Option (TagText × Cursor) := do
  let (tag, c) ←
    match c.ahead? 1 with
    | some '<' => do
      let (suffix, c) ← readTagText (c.move 2)
      if c.next? == some '>' then some (TagText.mk none suffix, c.step) else none
    | x =>
      if isGapOrEnd x then some (TagText.mk none "!", c.step)
      else do
        let word := c.step.run fun x => !(x == ' ' || isBreak x)
        let (handle, c) ← if word.contains '!' then readHandle c else some ("!", c.step)
        let (suffix, c) ← readTagText c
        some (TagText.mk (some handle) suffix, c)
  if isSpaceOrEnd c.next? then return (tag, c) else none

/-! ### Scalars in blocks -/

/-- What becomes of the line ends after a block. -/
inductive Chomping where
  | clip
  | strip
  | keep
  deriving DecidableEq, Repr

/-- Reads the sign of the chomping. -/
def chompingOf? : Option Char → Option Chomping
  | some '+' => some .keep
  | some '-' => some .strip
  | _ => none

/-- Reads the indentation that a block scalar states itself. -/
def incrementOf? (c : Option Char) : Option Nat :=
  c.bind fun x => if x.isDigit then some (x.toNat - '0'.toNat) else none

/-- Reads the chomping and the indentation of a block scalar, in either order. -/
def readBlockHeader (c : Cursor) : Option ((Chomping × Option Nat) × Cursor) := do
  let (chomping, increment, c) :=
    match chompingOf? c.next? with
    | some chomping =>
      match incrementOf? c.step.next? with
      | some n => (chomping, some n, c.move 2)
      | none => (chomping, none, c.step)
    | none =>
      match incrementOf? c.next? with
      | some n =>
        match chompingOf? c.step.next? with
        | some chomping => (chomping, some n, c.move 2)
        | none => (.clip, some n, c.step)
      | none => (.clip, none, c)
  if increment == some 0 || !isSpaceOrEnd c.next? then none
  let c ← c.restOfLine?
  return ((chomping, increment), c)

/-- Reads the empty lines before a block and finds the deepest indentation among them and the first
line of the block. -/
def readLeadingBreaks : Nat → Cursor → Nat → List Char × Nat × Cursor
  | 0, c, deepest => ([], deepest, c)
  | n + 1, c, deepest =>
    match c.lineBreak? with
    | some (b, c) =>
      let (breaks, deepest, c) := readLeadingBreaks n c deepest
      (b :: breaks, deepest, c)
    | none =>
      if c.next? == some ' ' then readLeadingBreaks n c.step (max deepest c.step.column)
      else ([], deepest, c)

/-- Moves over blanks, at most up to a column. -/
def skipIndent (indent : Nat) (c : Cursor) : Cursor :=
  c.move (min (c.run (· == ' ')).length (indent - c.column))

/-- Reads empty lines between the lines of a block. -/
def readBlockBreaks (indent : Nat) : Nat → Cursor → List Char × Cursor
  | 0, c => ([], c)
  | n + 1, c =>
    let c := skipIndent indent c
    match c.lineBreak? with
    | some (b, c) =>
      let (breaks, c) := readBlockBreaks indent n c
      (b :: breaks, c)
    | none => ([], c)

/-- The text at a cursor starts with a blank or a tab. -/
def startsBlank (c : Cursor) : Bool := c.next? == some ' ' || c.next? == some '\t'

/-- Reads the lines of a block. A line of a folded block is joined to the next by a blank, unless
one of them starts with a blank. Gives the text, the last line end and the empty lines after it. -/
def readBlockLines (folded : Bool) (indent : Nat) :
    Nat → List Char → Cursor → List Char × List Char × List Char × Cursor
  | 0, breaks, c => ([], [], breaks, c)
  | n + 1, breaks, c =>
    if c.column == indent && c.next?.isSome then
      let blankFirst := startsBlank c
      let line := c.run (!isBreak ·)
      let c := c.move line.length
      let (lineBreak, c) := match c.lineBreak? with
        | some (b, c) => ([b], c)
        | none => ([], c)
      let (nextBreaks, c) := readBlockBreaks indent (c.rest.length + 1) c
      if c.column == indent && c.next?.isSome then
        let joint :=
          if folded && lineBreak == ['\n'] && !blankFirst && !startsBlank c then
            if nextBreaks.isEmpty then [' '] else []
          else lineBreak
        let (text, lastBreak, tail, c) := readBlockLines folded indent n nextBreaks c
        (breaks ++ line ++ joint ++ text, lastBreak, tail, c)
      else (breaks ++ line, lineBreak, nextBreaks, c)
    else ([], [], breaks, c)

/-- Reads a block scalar after its mark, under the given indentation. -/
def readBlockScalar (folded : Bool) (indent : Int) (c : Cursor) : Option (String × Cursor) := do
  let ((chomping, increment), c) ← readBlockHeader c
  let least := (indent + 1).toNat.max 1
  let (indent, breaks, c) :=
    match increment with
    | none =>
      let (breaks, deepest, c) := readLeadingBreaks (c.rest.length + 1) c 0
      (max least deepest, breaks, c)
    | some n =>
      let indent := least + n - 1
      let (breaks, c) := readBlockBreaks indent (c.rest.length + 1) c
      (indent, breaks, c)
  let (text, lastBreak, tail, c) := readBlockLines folded indent (c.rest.length + 1) breaks c
  let ending := match chomping with
    | .strip => []
    | .clip => lastBreak
    | .keep => lastBreak ++ tail
  return (String.ofList (text ++ ending), c)

/-! ### Quoted scalars -/

/-- The escapes of one character. -/
def escapeOf? : Char → Option Char
  | '0' => some '\x00'
  | 'a' => some '\x07'
  | 'b' => some '\x08'
  | 't' => some '\t'
  | '\t' => some '\t'
  | 'n' => some '\n'
  | 'v' => some '\x0b'
  | 'f' => some '\x0c'
  | 'r' => some '\r'
  | 'e' => some '\x1b'
  | ' ' => some ' '
  | '"' => some '"'
  | '\\' => some '\\'
  | '/' => some '/'
  | 'N' => some '\x85'
  | '_' => some '\xa0'
  | 'L' => some '\u2028'
  | 'P' => some '\u2029'
  | _ => none

/-- The number of digits of an escape by code point. -/
def escapeDigits? : Char → Option Nat
  | 'x' => some 2
  | 'u' => some 4
  | 'U' => some 8
  | _ => none

/-- Reads empty lines inside a quoted scalar; the marks of documents are refused there. -/
def readQuotedBreaks : Nat → Cursor → Option (List Char × Cursor)
  | 0, c => some ([], c)
  | n + 1, c =>
    if c.atSeparator then none
    else
      let c := c.skip fun x => x == ' ' || x == '\t'
      match c.lineBreak? with
      | some (b, c) => do
        let (breaks, c) ← readQuotedBreaks n c
        return (b :: breaks, c)
      | none => some ([], c)

/-- Reads the blanks at a cursor; with a line end among them they fold to a blank or to the empty
lines. -/
def readQuotedBlanks (c : Cursor) : Option (List Char × Cursor) := do
  let blanks := c.run fun x => x == ' ' || x == '\t'
  let c := c.move blanks.length
  if c.next?.isNone then none
  match c.lineBreak? with
  | some (b, c) =>
    let (breaks, c) ← readQuotedBreaks (c.rest.length + 1) c
    let joint := if b != '\n' then [b] else if breaks.isEmpty then [' '] else []
    return (joint ++ breaks, c)
  | none => return (blanks, c)

/-- The character of an escape by code point. Half of a pair of surrogates is no character. -/
def codeChar (n : Nat) (digits : List Char) : Except Fault Char :=
  let code := Text.numberIn 16 digits
  if digits.length != n || !digits.all Text.isHex then throw .malformed
  else if 0x110000 ≤ code then throw .badCode
  else if code.isValidChar then return Char.ofNat code
  else throw .malformed

/-- Reads an escape after its backslash. -/
def readEscape (c : Cursor) : Except Fault (List Char × Cursor) := do
  let x ← orMalformed c.next?
  match escapeOf? x with
  | some y => return ([y], c.step)
  | none =>
    match escapeDigits? x with
    | some n => return ([← codeChar n (c.step.rest.take n)], c.move (n + 1))
    | none =>
      let (_, c) ← orMalformed c.lineBreak?
      orMalformed (readQuotedBreaks (c.rest.length + 1) c)

/-- Reads a quoted scalar after its opening quote; the first argument bounds the number of steps. -/
def readQuotedChars (double : Bool) : Nat → Cursor → Except Fault (List Char × Cursor)
  | 0, _ => throw .malformed
  | n + 1, c => do
    let x ← orMalformed c.next?
    if x == (if double then '"' else '\x27') then
      if !double && c.ahead? 1 == some '\x27' then
        let (more, c) ← readQuotedChars double n (c.move 2)
        return ('\x27' :: more, c)
      else return ([], c.step)
    else if double && x == '\\' then
      let (text, c) ← readEscape c.step
      let (more, c) ← readQuotedChars double n c
      return (text ++ more, c)
    else if x == ' ' || x == '\t' || isBreak x then
      let (text, c) ← orMalformed (readQuotedBlanks c)
      let (more, c) ← readQuotedChars double n c
      return (text ++ more, c)
    else
      let (more, c) ← readQuotedChars double n c.step
      return (x :: more, c)

/-- Reads a quoted scalar after its opening quote. -/
def readQuoted (double : Bool) (c : Cursor) : Except Fault (String × Cursor) := do
  let (text, c) ← readQuotedChars double (c.rest.length + 1) c
  return (String.ofList text, c)

/-! ### Plain scalars -/

/-- The marks of flow collections. -/
def isFlowMark (c : Char) : Bool := ",[]\x7b\x7d".toList.contains c

/-- The length of the piece of a plain scalar at a text. -/
def plainLength (inFlow : Bool) : List Char → Nat
  | [] => 0
  | x :: rest =>
    if x == ' ' || x == '\t' || isBreak x then 0
    else if x == ':' && (isGapOrEnd rest.head? || (inFlow && rest.head?.any isFlowMark)) then 0
    else if inFlow && (isFlowMark x || x == '?') then 0
    else plainLength inFlow rest + 1

/-- What separates two pieces of a plain scalar: text, or a mark of a document, which ends the
scalar. -/
structure PlainGap where
  text : List Char
  /-- A line has ended. -/
  crossed : Bool
  cursor : Cursor

/-- Reads the empty lines between two pieces of a plain scalar; none if a mark of a document
follows. -/
def readPlainBreaks : Nat → Cursor → Option (List Char) × Cursor
  | 0, c => (some [], c)
  | n + 1, c =>
    if c.next? == some ' ' then readPlainBreaks n c.step
    else match c.lineBreak? with
      | none => (some [], c)
      | some (b, c) =>
        if c.atSeparator then (none, c)
        else
          let (breaks, c) := readPlainBreaks n c
          (breaks.map (b :: ·), c)

/-- Reads what separates two pieces of a plain scalar. -/
def readPlainGap (c : Cursor) : PlainGap :=
  let blanks := c.run (· == ' ')
  let c := c.move blanks.length
  match c.lineBreak? with
  | none => ⟨blanks, false, c⟩
  | some (b, c) =>
    if c.atSeparator then ⟨[], true, c⟩
    else
      match readPlainBreaks (c.rest.length + 1) c with
      | (none, c) => ⟨[], true, c⟩
      | (some breaks, c) =>
        let joint := if b != '\n' then [b] else if breaks.isEmpty then [' '] else []
        ⟨joint ++ breaks, true, c⟩

/-- Reads the pieces of a plain scalar; `gap` separates the next from the one before. Also tells
whether a line ended after the last piece. -/
def readPlainPieces (inFlow : Bool) (indent : Int) :
    Nat → List Char → Bool → Cursor → List Char × Bool × Cursor
  | 0, _, crossed, c => ([], crossed, c)
  | n + 1, gap, crossed, c =>
    if c.next? == some '#' then ([], crossed, c)
    else
      let length := plainLength inFlow c.rest
      if length == 0 then ([], crossed, c)
      else
        let piece := c.rest.take length
        let g := readPlainGap (c.move length)
        if g.text.isEmpty || g.cursor.next? == some '#' ||
            (!inFlow && (g.cursor.column : Int) < indent) then
          (gap ++ piece, g.crossed, g.cursor)
        else
          let (more, crossed, c) := readPlainPieces inFlow indent n g.text g.crossed g.cursor
          (gap ++ piece ++ more, crossed, c)

/-- Reads a plain scalar, and tells whether a line ended after it. -/
def readPlain (inFlow : Bool) (indent : Int) (c : Cursor) : String × Bool × Cursor :=
  let (text, crossed, c) := readPlainPieces inFlow (indent + 1) (c.rest.length + 1) [] false c
  (String.ofList text, crossed, c)

end ScriptModules.Yaml
