import ScriptModules.Pattern.Node

/-!
# Positions in a text

A cursor holds the text before it, nearest character first, the text after it, and what the groups
of a pattern have captured on the way.
-/

namespace ScriptModules.Pattern

/-- A position in a text with the captured groups, the latest first. -/
structure Cursor where
  pos : Nat
  before : List Char
  after : List Char
  groups : List (Nat × List Char) := []
  deriving DecidableEq, Repr

namespace Cursor

/-- The start of a text. -/
def start (text : List Char) : Cursor := ⟨0, [], text, []⟩

/-- The whole text around the cursor. -/
def text (c : Cursor) : List Char := c.before.reverse ++ c.after

/-- Moves over the character `x`, after which `rest` follows. -/
def past (c : Cursor) (x : Char) (rest : List Char) : Cursor :=
  { c with pos := c.pos + 1, before := x :: c.before, after := rest }

/-- Moves back over a number of characters, if there are so many. -/
def back : Nat → Cursor → Option Cursor
  | 0, c => some c
  | n + 1, c =>
    match c.before with
    | [] => none
    | x :: rest => back n { c with pos := c.pos - 1, before := rest, after := x :: c.after }

/-- The latest text of a group. -/
def group? (c : Cursor) (index : Nat) : Option (List Char) :=
  c.groups.lookup index

/-- Records the text between an earlier cursor and this one as a group. -/
def capture (c : Cursor) (index : Nat) (origin : Cursor) : Cursor :=
  { c with groups := (index, origin.after.take (c.pos - origin.pos)) :: c.groups }

/-- Moves over the given text, compared by the rule, if it stands here. -/
def skip (rule : CaseRule) : List Char → Cursor → Option Cursor
  | [], c => some c
  | x :: xs, c =>
    match c.after with
    | [] => none
    | y :: rest => if rule.sameLower x y then skip rule xs (c.past y rest) else none

/-- A word character stands right before the cursor. -/
def wordBefore (alphabet : Alphabet) (c : Cursor) : Bool :=
  c.before.head?.any (CharKind.word.holds alphabet)

/-- A word character stands right after the cursor. -/
def wordAfter (alphabet : Alphabet) (c : Cursor) : Bool :=
  c.after.head?.any (CharKind.word.holds alphabet)

/-- The anchor's condition holds here. -/
def holds (c : Cursor) : Anchor → Bool
  | .start => c.before.isEmpty
  | .lineStart => c.before.head?.all (· == '\n')
  | .finish => c.after.isEmpty || c.after == ['\n']
  | .lineFinish => c.after.head?.all (· == '\n')
  | .textEnd => c.after.isEmpty
  | .boundary alphabet => c.wordBefore alphabet != c.wordAfter alphabet
  | .inside alphabet =>
    c.wordBefore alphabet == c.wordAfter alphabet && !(c.before.isEmpty && c.after.isEmpty)

/-- The cursor from which a look reads. -/
def origin : Side → Cursor → Option Cursor
  | .ahead, c => some c
  | .behind width, c => c.back width

end Cursor

end ScriptModules.Pattern
