import ScriptModules.Pattern.Reader
import ScriptModules.Pattern.Search
import ScriptModules.Text.Integer
import ScriptModules.Text.NameClass

/-!
# Written patterns

The syntax of patterns: characters and escapes, sets in brackets, repetitions, groups with or
without a name, looks, conditions on groups, comments and flags. Reading a pattern gives its tree
with the number and names of its groups, or says what is wrong with it.
-/

namespace ScriptModules.Pattern

/-- A pattern with its groups. -/
structure Compiled where
  node : Node
  groupCount : Nat
  names : List (List Char × Nat)
  deriving DecidableEq, Repr

/-- Ways in which a pattern reads its characters. -/
structure Flags where
  ignoreCase : Bool := false
  multiline : Bool := false
  dotAll : Bool := false
  verbose : Bool := false
  ascii : Bool := false
  unicode : Bool := false
  locale : Bool := false
  template : Bool := false
  deriving DecidableEq, Repr

namespace Flags

/-- The flag of a letter. -/
def ofLetter? : Char → Option Flags
  | 'i' => some { ignoreCase := true }
  | 'L' => some { locale := true }
  | 'm' => some { multiline := true }
  | 's' => some { dotAll := true }
  | 'x' => some { verbose := true }
  | 'a' => some { ascii := true }
  | 't' => some { template := true }
  | 'u' => some { unicode := true }
  | _ => none

/-- The flags of either. -/
def union (f g : Flags) : Flags where
  ignoreCase := f.ignoreCase || g.ignoreCase
  multiline := f.multiline || g.multiline
  dotAll := f.dotAll || g.dotAll
  verbose := f.verbose || g.verbose
  ascii := f.ascii || g.ascii
  unicode := f.unicode || g.unicode
  locale := f.locale || g.locale
  template := f.template || g.template

/-- The flags of the first but not of the second. -/
def without (f g : Flags) : Flags where
  ignoreCase := f.ignoreCase && !g.ignoreCase
  multiline := f.multiline && !g.multiline
  dotAll := f.dotAll && !g.dotAll
  verbose := f.verbose && !g.verbose
  ascii := f.ascii && !g.ascii
  unicode := f.unicode && !g.unicode
  locale := f.locale && !g.locale
  template := f.template && !g.template

/-- The flags that set the alphabet. -/
def alphabets : Flags := { ascii := true, unicode := true, locale := true }

/-- The flags of both. -/
def inter (f g : Flags) : Flags := f.without (f.without g)

/-- No flag is set. -/
def isNone (f : Flags) : Bool := f == {}

/-- The flags inside a group that turns some on and some off; an alphabet turned on replaces
another. -/
def inGroup (f on off : Flags) : Flags :=
  let kept := if (on.inter alphabets).isNone then f else f.without alphabets
  (kept.union on).without off

/-- The alphabet in use. -/
def alphabet (f : Flags) : Alphabet := if f.ascii then .ascii else .unicode

/-- How characters are compared. -/
def rule (f : Flags) : CaseRule := if f.ignoreCase then .fold f.alphabet else .exact

end Flags

/-- The least and the most characters that a part matches. -/
structure Width where
  least : Nat
  most : Nat
  deriving DecidableEq, Repr

namespace Width

/-- Stands for every width that has no bound. -/
def unbounded : Nat := Nat.pow 2 64

/-- Nothing. -/
def zero : Width := ⟨0, 0⟩

/-- One character. -/
def one : Width := ⟨1, 1⟩

/-- Keeps the bounds within the largest width. -/
def capped (w : Width) : Width := ⟨min w.least unbounded, min w.most unbounded⟩

/-- One after the other. -/
def add (v w : Width) : Width := capped ⟨v.least + w.least, v.most + w.most⟩

/-- One or the other. -/
def join (v w : Width) : Width := ⟨min v.least w.least, max v.most w.most⟩

/-- A number of turns. -/
def loop (w : Width) (least : Nat) (most : Option Nat) : Width :=
  ⟨w.least * least,
    match most with
    | none => if w.most == 0 then 0 else unbounded
    | some m => w.most * m⟩

end Width

/-- What a part of a sequence is, as far as a repetition after it asks. -/
inductive PartKind where
  | anchor
  | loop
  | other
  deriving DecidableEq, Repr

/-- A part of a sequence. -/
structure Part where
  kind : PartKind
  node : Node
  width : Width
  deriving Repr

/-- The characters with a name. -/
abbrev CharacterNames := List Char → Option Char

/-- What is known of a pattern while it is read. -/
structure Outline where
  /-- The names by which characters may be written. -/
  characters : CharacterNames
  /-- The flags of the whole pattern. -/
  flags : Flags := {}
  /-- The widths of the groups in order, none for a group that is still open. -/
  groups : List (Option Width) := []
  names : List (List Char × Nat) := []
  /-- Inside a look behind, the number of the first group that belongs to it. -/
  lookFrom : Option Nat := none
  /-- The groups that conditions ask for, with the position of the first of them. -/
  conditions : List (Nat × Nat) := []
  /-- Some look behind has no fixed width. -/
  variableLook : Bool := false

namespace Outline

/-- The number that the next group gets. -/
def nextGroup (o : Outline) : Nat := o.groups.length + 1

/-- The width of a group that is complete. -/
def width? (o : Outline) (index : Nat) : Option Width :=
  match index with
  | 0 => none
  | i + 1 => (o.groups[i]?).join

/-- Completes a group. -/
def close (o : Outline) (index : Nat) (w : Width) : Outline :=
  { o with groups := o.groups.set (index - 1) (some w) }

end Outline

/-- Reads a written pattern. -/
abbrev PatternReading := Reading Outline

namespace PatternReading

/-- The largest number of turns is below this. -/
def turnLimit : Nat := 4294967295

/-- The largest group number is below this. -/
def groupLimit : Nat := 1073741823

/-- The outline so far. -/
def outline : PatternReading Outline := do
  return (← get).2

/-- Changes the outline. -/
def updateOutline (f : Outline → Outline) : PatternReading Unit :=
  modify fun s => (s.1, f s.2)

/-- The flags in force: those of an enclosing group, or those of the whole pattern. -/
def flagsIn (scope : Option Flags) : PatternReading Flags := do
  match scope with
  | some f => return f
  | none => return (← outline).flags

/-- A character by its code point; some code points are no characters. -/
def itemOf (code : Nat) : SetItem :=
  if code.isValidChar then .char (Char.ofNat code) else .range code code

/-- The part that matches one code point. -/
def codePart (flags : Flags) (code : Nat) : Part :=
  ⟨.other, .set ⟨[itemOf code], false, flags.rule⟩, .one⟩

/-- The part that matches a kind of characters. -/
def kindPart (flags : Flags) (k : CharKind) (negated : Bool) : Part :=
  ⟨.other, .set ⟨[.kind k flags.alphabet negated], false, flags.rule⟩, .one⟩

/-- The part for an anchor. -/
def anchorPart (a : Anchor) : Part := ⟨.anchor, .anchor a, .zero⟩

/-- A kind of characters and whether it is complemented, by the letter of its escape. -/
def kindEscape? : Char → Option (CharKind × Bool)
  | 'd' => some (.digit, false)
  | 'D' => some (.digit, true)
  | 's' => some (.blank, false)
  | 'S' => some (.blank, true)
  | 'w' => some (.word, false)
  | 'W' => some (.word, true)
  | _ => none

/-- Reads the rest of an escape with a fixed number of digits in base sixteen. -/
def hexEscape (letter : Char) (digits : Nat) : PatternReading Nat := do
  let read ← Reading.takeWhile Text.isHex digits
  let written := '\\' :: letter :: read
  if read.length == digits then
    let code := Text.numberIn 16 read
    if 0x110000 ≤ code then Reading.fail (.badEscape written) written.length else return code
  else
    Reading.fail (.incompleteEscape written) written.length

/-- Reads the rest of an escape with the name of a character. -/
def namedEscape : PatternReading Nat := do
  if !(← Reading.accept '\x7b') then Reading.fail .missingBrace 0
  let name ← Reading.nameUntil '\x7d' "character name"
  match (← outline).characters name with
  | some c => return c.toNat
  | none => Reading.fail (.unknownCharacter name) (name.length + 4)

/-- Refuses a reference to a group from inside the look behind that it belongs to. -/
def checkLook (index : Nat) : PatternReading Unit := do
  let o ← outline
  match o.lookFrom with
  | none => return ()
  | some from_ =>
    if (o.width? index).isNone then Reading.fail .openGroup 0
    else if from_ ≤ index then Reading.fail .groupOfSameLook 0
    else return ()

/-- The part that refers to a complete group; `back` is where the reference starts. -/
def referencePart (flags : Flags) (index back : Nat) : PatternReading Part := do
  match (← outline).width? index with
  | none => Reading.fail .openGroup back
  | some w =>
    checkLook index
    return ⟨.other, .backref index flags.rule, w⟩

/-- Reads the rest of an escape that starts with a digit other than zero: three octal digits are a
character, anything else refers to a group. -/
def digitEscape (flags : Flags) (first : Char) : PatternReading Part := do
  let second ← Reading.takeWhile Char.isDigit 1
  let third ←
    if second.length == 1 && Text.isOctal first && second.all Text.isOctal
      then Reading.takeWhile Text.isOctal 1
    else pure []
  let digits := first :: second ++ third
  let written := '\\' :: digits
  if third.isEmpty then
    let index := Text.numberIn 10 digits
    if index < (← outline).nextGroup then referencePart flags index written.length
    else Reading.fail (.noGroup index) (written.length - 1)
  else
    let code := Text.numberIn 8 digits
    if 0o377 < code then Reading.fail (.octalTooLarge written) written.length
    else return codePart flags code

/-- The part of the escape with the given character, outside sets. -/
def escapePart (flags : Flags) (c : Char) : PatternReading Part := do
  match kindEscape? c with
  | some (k, negated) => return kindPart flags k negated
  | none =>
  match c with
  | 'A' => return anchorPart .start
  | 'Z' => return anchorPart .textEnd
  | 'b' => return anchorPart (.boundary flags.alphabet)
  | 'B' => return anchorPart (.inside flags.alphabet)
  | 'x' => return codePart flags (← hexEscape c 2)
  | 'u' => return codePart flags (← hexEscape c 4)
  | 'U' => return codePart flags (← hexEscape c 8)
  | 'N' => return codePart flags (← namedEscape)
  | '0' => return codePart flags (Text.numberIn 8 (← Reading.takeWhile Text.isOctal 2))
  | _ =>
  match controlEscape? c with
  | some d => return codePart flags d.toNat
  | none =>
    if c.isDigit then digitEscape flags c
    else if c.isAlpha then Reading.fail (.badEscape ['\\', c]) 2
    else return codePart flags c.toNat

/-- What stands for characters inside a set: one code point, or a kind. -/
inductive SetAtom where
  | code (n : Nat)
  | kind (k : CharKind) (negated : Bool)

/-- The atom of the escape with the given character, inside sets. -/
def escapeAtom (c : Char) : PatternReading SetAtom := do
  match controlEscape? c with
  | some d => return .code d.toNat
  | none =>
  match kindEscape? c with
  | some (k, negated) => return .kind k negated
  | none =>
  match c with
  | 'x' => return .code (← hexEscape c 2)
  | 'u' => return .code (← hexEscape c 4)
  | 'U' => return .code (← hexEscape c 8)
  | 'N' => return .code (← namedEscape)
  | _ =>
    if Text.isOctal c then
      let written := '\\' :: c :: (← Reading.takeWhile Text.isOctal 2)
      let code := Text.numberIn 8 written.tail
      if 0o377 < code then Reading.fail (.octalTooLarge written) written.length
        else return .code code
    else if c.isAlphanum then Reading.fail (.badEscape ['\\', c]) 2
    else return .code c.toNat

/-- The atom of a token inside a set. -/
def atomOf (t : Token) : PatternReading SetAtom :=
  if t.escaped then escapeAtom t.char else return .code t.char.toNat

/-- The entry of a set that an atom stands for. -/
def SetAtom.item (flags : Flags) : SetAtom → SetItem
  | .code n => itemOf n
  | .kind k negated => .kind k flags.alphabet negated

/-- The entry for the range between two atoms. -/
def rangeItem (first last : Token) : SetAtom → SetAtom → PatternReading SetItem
  | .code a, .code b =>
    if b < a then bad else return .range a b
  | _, _ => bad
where
  bad : PatternReading SetItem :=
    Reading.fail (.badRange first.text last.text) (first.text.length + 1 + last.text.length)

/-- Reads the entries of a set up to its bracket. A bracket that comes first is an entry. The first
argument bounds the number of entries, and `start` is where the set starts. -/
def setItems (flags : Flags) (start : Nat) : Nat → List SetItem → PatternReading (List SetItem)
  | 0, items => return items
  | n + 1, items => do
    match ← Reading.next with
    | none => unclosed
    | some this =>
      if this.isPlain ']' && !items.isEmpty then return items.reverse
      let first ← atomOf this
      if ← Reading.accept '-' then
        match ← Reading.next with
        | none => unclosed
        | some that =>
          if that.isPlain ']' then
            return (.char '-' :: first.item flags :: items).reverse
          let last ← atomOf that
          setItems flags start n ((← rangeItem this that first last) :: items)
      else
        setItems flags start n (first.item flags :: items)
where
  unclosed : PatternReading (List SetItem) := do
    Reading.fail .openSet ((← Reading.position) - start)

/-- Reads a set after its opening bracket. -/
def setPart (flags : Flags) : PatternReading Part := do
  let start := (← Reading.position) - 1
  let negated ← Reading.accept '^'
  let items ← setItems flags start ((← Reading.remaining) + 1) []
  return ⟨.other, .set ⟨items, negated, flags.rule⟩, .one⟩

/-- Reads the digits of a repetition count, of which there may be none. -/
def turnDigits : PatternReading (List Char) := do
  Reading.takeWhile Char.isDigit (← Reading.remaining)

/-- The repetition count that digits write, if there are any. One with too many digits is refused
before it is read, and so is one that is too large. -/
def turnCount (digits : List Char) : PatternReading (Option Nat) :=
  if digits.isEmpty then return none
  else if Text.digitLimit < digits.length then throw (.tooManyDigits digits.length)
  else
    let n := Text.numberIn 10 digits
    if turnLimit ≤ n then throw .tooManyTurns else return some n

/-- Reads the counts of a repetition after its opening brace. Where they are not well formed nothing
is read, and the brace stands for itself. -/
def braceCounts : PatternReading (Option (Nat × Option Nat)) := do
  let here ← Reading.reader
  if ← Reading.peekIs '\x7d' then return none
  let leastDigits ← turnDigits
  let mostDigits ← if ← Reading.accept ',' then turnDigits else pure leastDigits
  if !(← Reading.accept '\x7d') then
    Reading.returnTo here
    return none
  let least ← turnCount leastDigits
  let most ← turnCount mostDigits
  if most.any (· < least.getD 0) then
    Reading.fail .leastAboveMost ((← Reading.position) - here.pos)
  return some (least.getD 0, most)

/-- The counts of the repetition that a character opens, if it opens one. -/
def loopCounts (c : Char) : PatternReading (Option (Nat × Option Nat)) :=
  match c with
  | '?' => return some (0, some 1)
  | '*' => return some (0, none)
  | '+' => return some (1, none)
  | _ => braceCounts

/-- The repetition of the last part of a sequence; `start` is where the counts start. -/
def loopPart (start : Nat) (counts : Nat × Option Nat) (parts : List Part) :
    PatternReading (List Part) := do
  let back := (← Reading.position) - start + 1
  match parts with
  | [] => Reading.fail .nothingToRepeat back
  | part :: rest =>
    match part.kind with
    | .anchor => Reading.fail .nothingToRepeat back
    | .loop => Reading.fail .multipleRepeat back
    | .other =>
      let greed ←
        if ← Reading.accept '?' then pure Greed.reluctant
        else if ← Reading.accept '+' then pure Greed.possessive
        else pure Greed.greedy
      return ⟨.loop, .loop greed counts.1 counts.2 part.node,
        part.width.loop counts.1 counts.2⟩ :: rest

/-- Reads flag letters to turn on; `c` is the next of them. Gives the flags and the mark that ends
them. -/
def flagsOn : Nat → Char → Flags → PatternReading (Flags × Char)
  | 0, c, on => return (on, c)
  | n + 1, c, on => do
    match Flags.ofLetter? c with
    | none => return (on, c)
    | some f =>
      if f.locale then Reading.fail .localeFlag 0
      let on := on.union f
      if !(f.inter Flags.alphabets).isNone && on.inter Flags.alphabets != f then
        Reading.fail .alphabetFlags 0
      match ← Reading.next with
      | none => Reading.fail .flagsUnfinished 0
      | some t =>
        if t.isPlain ')' || t.isPlain '-' || t.isPlain ':' then return (on, t.char)
        else if !t.escaped && (Flags.ofLetter? t.char).isSome then flagsOn n t.char on
        else if !t.escaped && Text.isLetter t.char then Reading.fail .flagUnknown t.text.length
        else Reading.fail .flagsUnfinished t.text.length

/-- Reads flag letters to turn off up to the colon; `c` is the next of them. -/
def flagsOff : Nat → Char → Flags → PatternReading Flags
  | 0, _, off => return off
  | n + 1, c, off => do
    match Flags.ofLetter? c with
    | none => return off
    | some f =>
      if !(f.inter Flags.alphabets).isNone then Reading.fail .alphabetFlagOff 0
      let off := off.union f
      match ← Reading.next with
      | none => Reading.fail .flagsNeedColon 0
      | some t =>
        if t.isPlain ':' then return off
        else if !t.escaped && (Flags.ofLetter? t.char).isSome then flagsOff n t.char off
        else if !t.escaped && Text.isLetter t.char then Reading.fail .flagUnknown t.text.length
        else Reading.fail .flagsNeedColon t.text.length

/-- Reads the letters after the minus sign of flags. -/
def flagsAfterMinus : PatternReading Flags := do
  match ← Reading.next with
  | none => Reading.fail .flagMissing 0
  | some t =>
    if !t.escaped && (Flags.ofLetter? t.char).isSome then
      flagsOff ((← Reading.remaining) + 1) t.char {}
    else if !t.escaped && Text.isLetter t.char then Reading.fail .flagUnknown t.text.length
    else Reading.fail .flagMissing t.text.length

/-- Reads flags from their first character on: the flags to turn on and off inside a group, or none
if they were for the whole pattern. -/
def flagsPart (c : Char) : PatternReading (Option (Flags × Flags)) := do
  let (on, mark) ← if c == '-' then pure ({}, c) else flagsOn ((← Reading.remaining) + 1) c {}
  if mark == ')' then
    updateOutline fun o => { o with flags := o.flags.union on }
    return none
  if on.template then Reading.fail .globalFlagOn 1
  let off ← if mark == '-' then flagsAfterMinus else pure {}
  if off.template then Reading.fail .globalFlagOff 1
  if !(on.inter off).isNone then Reading.fail .flagOnAndOff 1
  return some (on, off)

/-- Reads a comment up to its parenthesis; `start` is where it starts. -/
def comment (start : Nat) : Nat → PatternReading Unit
  | 0 => return ()
  | n + 1 => do
    match ← Reading.peek with
    | none => Reading.fail .openComment ((← Reading.position) - start)
    | some t =>
      discard Reading.next
      if t.isPlain ')' then return () else comment start n

/-- Skips the rest of a line, as a comment of a verbose pattern. -/
def lineComment : Nat → PatternReading Unit
  | 0 => return ()
  | n + 1 => do
    match ← Reading.next with
    | none => return ()
    | some t => if t.isPlain '\n' then return () else lineComment n

/-- Refuses a group name that is no name. -/
def checkName (name : List Char) : PatternReading Unit :=
  if Text.isName name then return () else Reading.fail (.badGroupName name) (name.length + 1)

/-- The number of a named group. -/
def groupNamed (name : List Char) : PatternReading Nat := do
  match (← outline).names.lookup name with
  | some index => return index
  | none => Reading.fail (.unknownGroup name) (name.length + 1)

/-- Reads the group that a condition asks for. -/
def conditionGroup : PatternReading Nat := do
  let name ← Reading.nameUntil ')' "group name"
  let index ←
    if Text.isName name then groupNamed name
    else
      match Text.integerOf? name with
      | some (.ofNat index) =>
        if index == 0 then Reading.fail .groupZero (name.length + 1)
        if groupLimit ≤ index then Reading.fail (.noGroup index) (name.length + 1)
        let here := (← Reading.position) - name.length - 1
        updateOutline fun o =>
          if (o.conditions.lookup index).isSome then o
          else { o with conditions := o.conditions ++ [(index, here)] }
        pure index
      | _ => Reading.fail (.badGroupName name) (name.length + 1)
  checkLook index
  return index

/-- What an opening parenthesis starts. -/
inductive Opening where
  /-- Nothing that stays in the pattern: a comment, or flags of the whole pattern. -/
  | nothing
  | flags
  | part (p : Part)
  | group (name : Option (List Char))
  | plain (on off : Flags)
  | atomic
  | look (behind negated : Bool)
  | condition

/-- Reads what stands after an opening parenthesis that starts at `start`. -/
def opening (flags : Flags) (start : Nat) : PatternReading Opening := do
  if !(← Reading.accept '?') then return .group none
  match ← Reading.next with
  | none => Reading.fail .endInside 0
  | some t =>
    if t.escaped then Reading.fail (.unknownExtension t.text) (t.text.length + 1)
    match t.char with
    | 'P' =>
      if ← Reading.accept '<' then
        let name ← Reading.nameUntil '>' "group name"
        checkName name
        return .group (some name)
      else if ← Reading.accept '=' then
        let name ← Reading.nameUntil ')' "group name"
        checkName name
        return .part (← referencePart flags (← groupNamed name) (name.length + 1))
      else
        match ← Reading.next with
        | none => Reading.fail .endInside 0
        | some u => Reading.fail (.unknownExtension ('P' :: u.text)) (u.text.length + 2)
    | ':' => return .plain {} {}
    | '#' =>
      comment start ((← Reading.remaining) + 1)
      return .nothing
    | '=' => return .look false false
    | '!' => return .look false true
    | '<' =>
      match ← Reading.next with
      | none => Reading.fail .endInside 0
      | some u =>
        if u.isPlain '=' then return .look true false
        else if u.isPlain '!' then return .look true true
        else Reading.fail (.unknownExtension ('<' :: u.text)) (u.text.length + 2)
    | '(' => return .condition
    | '>' => return .atomic
    | c =>
      if c == '-' || (Flags.ofLetter? c).isSome then
        match ← flagsPart c with
        | none => return .flags
        | some (on, off) => return .plain on off
      else Reading.fail (.unknownExtension [c]) 2

/-- Reads the parenthesis that closes what starts at `start`. -/
def closing (start : Nat) : PatternReading Unit := do
  if !(← Reading.accept ')') then
    Reading.fail .openParenthesis ((← Reading.position) - start)

/-- Numbers a new group and records its name. -/
def openGroup (name : Option (List Char)) : PatternReading Nat := do
  let o ← outline
  let index := o.nextGroup
  match name with
  | none => updateOutline fun o => { o with groups := o.groups ++ [none] }
  | some n =>
    match o.names.lookup n with
    | some was => Reading.fail (.groupTwice n index was) (n.length + 1)
    | none =>
      updateOutline fun o =>
        { o with groups := o.groups ++ [none], names := o.names ++ [(n, index)] }
  return index

/-- The parts of a sequence, latest first, as one. -/
def sequenceOf (parts : List Part) : Node × Width :=
  (Node.sequence (parts.reverse.map (·.node)), parts.foldl (fun w p => w.add p.width) .zero)

/-- A blank that a verbose pattern skips. -/
def isLayout (t : Token) : Bool :=
  !t.escaped && Text.isAsciiBlank t.char

/-- The anchor for the start of the text under the flags. -/
def startAnchor (flags : Flags) : Anchor := if flags.multiline then .lineStart else .start

/-- The anchor for the end of the text under the flags. -/
def finishAnchor (flags : Flags) : Anchor := if flags.multiline then .lineFinish else .finish

mutual

/-- Reads alternatives. `scope` holds the flags of an enclosing group; there is none at the
outermost level, where flags for the whole pattern may still come. The first argument bounds the
depth of the reading by the length of the text. -/
def alternatives (scope : Option Flags) : Nat → Bool → PatternReading (Node × Width)
  | 0, _ => return (.empty, .zero)
  | depth + 1, first => do
    let this ← sequence scope depth first []
    if ← Reading.accept '|' then
      let rest ← alternatives scope depth false
      return (.alt this.1 rest.1, this.2.join rest.2)
    else
      return this

/-- Reads a sequence up to a bar, a parenthesis or the end; `parts` is what has been read of it,
latest first. Flags for the whole pattern are taken only before the first part. -/
def sequence (scope : Option Flags) : Nat → Bool → List Part → PatternReading (Node × Width)
  | 0, _, parts => return sequenceOf parts
  | depth + 1, first, parts => do
    match ← Reading.peek with
    | none => return sequenceOf parts
    | some t =>
      if t.isPlain '|' || t.isPlain ')' then return sequenceOf parts
      discard Reading.next
      let flags ← flagsIn scope
      if flags.verbose && isLayout t then sequence scope depth first parts
      else if flags.verbose && t.isPlain '#' then
        lineComment ((← Reading.remaining) + 1)
        sequence scope depth first parts
      else if t.escaped then
        sequence scope depth first ((← escapePart flags t.char) :: parts)
      else match t.char with
        | '[' => sequence scope depth first ((← setPart flags) :: parts)
        | '.' =>
          let s := if flags.dotAll then CharSet.all else CharSet.allBut '\n'
          sequence scope depth first (⟨.other, .set s, .one⟩ :: parts)
        | '^' => sequence scope depth first (anchorPart (startAnchor flags) :: parts)
        | '$' => sequence scope depth first (anchorPart (finishAnchor flags) :: parts)
        | '(' =>
          let start := (← Reading.position) - 1
          match ← opening flags start with
          | .nothing => sequence scope depth first parts
          | .flags =>
            if !first || !parts.isEmpty then
              Reading.fail .lateFlags ((← Reading.position) - start)
            sequence scope depth first parts
          | .part p => sequence scope depth first (p :: parts)
          | .group name =>
            let index ← openGroup name
            let (body, w) ← alternatives (some flags) depth false
            closing start
            updateOutline (·.close index w)
            sequence scope depth first (⟨.other, .group index body, w⟩ :: parts)
          | .plain on off =>
            let (body, w) ← alternatives (some (flags.inGroup on off)) depth false
            closing start
            sequence scope depth first (⟨.other, body, w⟩ :: parts)
          | .atomic =>
            let (body, w) ← alternatives (some flags) depth false
            closing start
            sequence scope depth first (⟨.other, .atomic body, w⟩ :: parts)
          | .look behind negated =>
            let outer := (← outline).lookFrom
            if behind && outer.isNone then
              updateOutline fun o => { o with lookFrom := some o.nextGroup }
            let (body, w) ← alternatives (some flags) depth false
            if behind && outer.isNone then
              updateOutline fun o => { o with lookFrom := none }
            closing start
            if behind && w.least != w.most then
              updateOutline fun o => { o with variableLook := true }
            let side := if behind then Side.behind w.least else Side.ahead
            sequence scope depth first (⟨.other, .look side negated body, .zero⟩ :: parts)
          | .condition =>
            let index ← conditionGroup
            let (present, v) ← sequence (some flags) depth false []
            let (absent, w) ←
              if ← Reading.accept '|' then
                let second ← sequence (some flags) depth false []
                if ← Reading.peekIs '|' then Reading.fail .thirdBranch 0
                pure second
              else
                pure (.empty, .zero)
            closing start
            sequence scope depth first (⟨.other, .branch index present absent, v.join w⟩ :: parts)
        | c =>
          if c == '*' || c == '+' || c == '?' || c == '\x7b' then
            let start ← Reading.position
            match ← loopCounts c with
            | none => sequence scope depth first (codePart flags c.toNat :: parts)
            | some counts => sequence scope depth first (← loopPart start counts parts)
          else
            sequence scope depth first (codePart flags c.toNat :: parts)

end

/-- Reads a whole pattern. -/
def pattern : PatternReading Compiled := do
  let (node, _) ← alternatives none (2 * (← Reading.remaining) + 4) true
  let o ← outline
  if o.flags.ascii && o.flags.unicode then throw .alphabetClash
  if (← Reading.peek).isSome then Reading.fail .unbalanced 0
  match o.conditions.find? fun c => o.nextGroup ≤ c.1 with
  | some (index, position) =>
    throw (.malformed (.noGroup index) (← Reading.reader).source (some position))
  | none =>
    if o.variableLook then throw (.malformed .variableLookBehind (← Reading.reader).source none)
    return ⟨node, o.groups.length, o.names⟩

end PatternReading

/-- Reads a written pattern, with the names by which it may write characters. -/
def Compiled.parse (characters : CharacterNames) (source : List Char) :
    Except Problem Compiled := do
  let r ← Reader.start source
  let (result, _) ← PatternReading.pattern.run (r, { characters })
  return result

end ScriptModules.Pattern
