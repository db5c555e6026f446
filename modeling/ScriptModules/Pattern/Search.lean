import ScriptModules.Pattern.Run

/-!
# Searching a text

A text is cut, from left to right, into characters that no match takes and the matches of a pattern.
The pieces concatenate to the text. Where a match was empty, the next one at that place is not.
-/

namespace ScriptModules.Pattern

/-- A match: the cursors at which it starts and ends. -/
structure Match where
  first : Cursor
  last : Cursor
  deriving DecidableEq, Repr

namespace Match

/-- The matched text. -/
def text (m : Match) : List Char := m.first.after.take (m.last.pos - m.first.pos)

/-- Nothing was matched but a position. -/
def isEmpty (m : Match) : Bool := m.last.pos == m.first.pos

/-- The text of a group, where group 0 is the whole match. -/
def group? (m : Match) : Nat → Option (List Char)
  | 0 => some m.text
  | index => m.last.group? index

/-- The text of a group, empty for a group that took no part. -/
def group (m : Match) (index : Nat) : List Char := (m.group? index).getD []

end Match

namespace Node

/-- The preferred match at a cursor, an empty one only if allowed. -/
def matchAt (n : Node) (nonEmpty : Bool) (c : Cursor) : Option Match :=
  let c := { c with groups := [] }
  (n.run c fun c' => if nonEmpty && c'.pos == c.pos then none else some c').map fun c' => ⟨c, c'⟩

/-- The match at the start of a text. -/
def matchStart (n : Node) (text : List Char) : Option Match :=
  n.matchAt false (.start text)

/-- The match that takes the whole text. -/
def matchWhole (n : Node) (text : List Char) : Option Match :=
  (Node.seq n (.anchor .textEnd)).matchStart text

/-- The leftmost match at or after a position. -/
def searchFrom (n : Node) (pos : Nat) (before : List Char) : List Char → Option Match
  | [] => n.matchAt false ⟨pos, before, [], []⟩
  | x :: rest =>
    match n.matchAt false ⟨pos, before, x :: rest, []⟩ with
    | some m => some m
    | none => n.searchFrom (pos + 1) (x :: before) rest

/-- The leftmost match in a text. -/
def search (n : Node) (text : List Char) : Option Match :=
  n.searchFrom 0 [] text

/-- The pattern occurs in the text. -/
def occursIn (n : Node) (text : List Char) : Bool := (n.search text).isSome

end Node

/-- A piece of a searched text. -/
inductive Piece where
  | skipped (c : Char)
  | found (m : Match)
  deriving DecidableEq, Repr

namespace Piece

/-- The piece of the text itself. -/
def text : Piece → List Char
  | .skipped c => [c]
  | .found m => m.text

/-- The match, if the piece is one. -/
def match? : Piece → Option Match
  | .skipped _ => none
  | .found m => some m

end Piece

namespace Node

/-- Cuts the text from a cursor on, with at most `room` matches. Each step moves on or is the single
empty match at its place, so twice the rest of the text bounds the number of steps. -/
def piecesFrom (n : Node) : Nat → Option Nat → Bool → Cursor → List Piece
  | 0, _, _, _ => []
  | steps + 1, room, nonEmpty, c =>
    match if room == some 0 then none else n.matchAt nonEmpty c with
    | some m => .found m :: n.piecesFrom steps (room.map (· - 1)) m.isEmpty m.last
    | none =>
      match c.after with
      | [] => []
      | x :: rest => .skipped x :: n.piecesFrom steps room false (c.past x rest)

/-- The pieces of a text, with at most `room` matches. -/
def pieces (n : Node) (room : Option Nat) (text : List Char) : List Piece :=
  n.piecesFrom (2 * text.length + 2) room false (.start text)

/-- All matches in a text. -/
def allMatches (n : Node) (text : List Char) : List Match :=
  (n.pieces none text).filterMap Piece.match?

/-- The texts of a group in all matches. -/
def groupTexts (n : Node) (index : Nat) (text : List Char) : List (List Char) :=
  (n.allMatches text).map (·.group index)

/-- Replaces the matches, at most `room` of them. -/
def replace (n : Node) (room : Option Nat) (f : Match → List Char) (text : List Char) : List Char :=
  (n.pieces room text).flatMap fun
    | .skipped c => [c]
    | .found m => f m

/-- Removes all matches. -/
def remove (n : Node) (text : List Char) : List Char :=
  n.replace none (fun _ => []) text

end Node

end ScriptModules.Pattern
