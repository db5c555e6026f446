import ScriptModules.Pattern.Parser

/-!
# Templates

A template is the text that takes the place of a match. It may refer to the groups of the match by
number or by name and writes some characters by escapes. A backslash before any other mark stands
for itself.
-/

namespace ScriptModules.Pattern

/-- A piece of a template: text, or the text of a group. -/
inductive TemplatePart where
  | text (s : List Char)
  | group (index : Nat)
  deriving DecidableEq, Repr

/-- What takes the place of a match. -/
abbrev Template := List TemplatePart

namespace Template

/-- The template that is one given text. -/
def verbatim (s : String) : Template := [.text s.toList]

/-- The text that takes the place of a match; a group that took no part gives nothing. -/
def expand (t : Template) (m : Match) : List Char :=
  t.flatMap fun
    | .text s => s
    | .group index => m.group index

/-- Refuses a number that no group has; `back` is where the reference starts. -/
def checkGroup (groupCount index back : Nat) : Reading Unit TemplatePart :=
  if groupCount < index then Reading.fail (.noGroup index) back else return .group index

/-- Reads a group reference in angle brackets. -/
def groupReference (c : Compiled) : Reading Unit TemplatePart := do
  if !(← Reading.accept '<') then Reading.fail .missingAngle 0
  let name ← Reading.nameUntil '>' "group name"
  if Text.isName name then
    match c.names.lookup name with
    | some index => checkGroup c.groupCount index (name.length + 1)
    | none => throw (.noSuchGroup name)
  else
    match Text.integerOf? name with
    | some (.ofNat index) =>
      if PatternReading.groupLimit ≤ index then Reading.fail (.noGroup index) (name.length + 1)
      checkGroup c.groupCount index (name.length + 1)
    | _ => Reading.fail (.badGroupName name) (name.length + 1)

/-- Reads the rest of an escape that starts with a digit other than zero: three octal digits are a
character, anything else refers to a group. -/
def digitEscape (c : Compiled) (first : Char) : Reading Unit TemplatePart := do
  let second ← Reading.takeWhile Char.isDigit 1
  let third ←
    if second.length == 1 && Text.isOctal first && second.all Text.isOctal
      then Reading.takeWhile Text.isOctal 1
    else pure []
  let digits := first :: second ++ third
  if third.isEmpty then
    checkGroup c.groupCount (Text.numberIn 10 digits) digits.length
  else
    let code := Text.numberIn 8 digits
    if 0o377 < code then Reading.fail (.octalTooLarge ('\\' :: digits)) (digits.length + 1)
    else return .text [Char.ofNat code]

/-- Reads the rest of an escape with the given character. -/
def escapePart (c : Compiled) (e : Char) : Reading Unit TemplatePart := do
  if e == 'g' then groupReference c
  else if e == '0' then
    let digits ← Reading.takeWhile Text.isOctal 2
    return .text [Char.ofNat (Text.numberIn 8 digits % 256)]
  else if e.isDigit then digitEscape c e
  else match controlEscape? e with
    | some d => return .text [d]
    | none =>
      if e.isAlpha then Reading.fail (.badEscape ['\\', e]) 2
      else return .text ['\\', e]

/-- Reads the parts of a template; the first argument bounds their number. -/
def parts (c : Compiled) : Nat → Reading Unit Template
  | 0 => return []
  | n + 1 => do
    match ← Reading.next with
    | none => return []
    | some t =>
      let part ← if t.escaped then escapePart c t.char else pure (.text [t.char])
      return part :: (← parts c n)

/-- Reads a written template for the groups of a pattern. -/
def parse (c : Compiled) (source : List Char) : Except Problem Template := do
  if !source.contains '\\' then return [.text source]
  let r ← Reader.start source
  let (result, _) ← (parts c (source.length + 1)).run (r, ())
  return result

end Template

end ScriptModules.Pattern
