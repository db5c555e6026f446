import ScriptModules.Pattern.CharSet

/-!
# Patterns as trees

A pattern describes pieces of text. Its parts are sets of characters, anchors, sequences, ordered
alternatives, numbered groups, references to groups, looks to either side, repetitions and cuts.
-/

namespace ScriptModules.Pattern

/-- Conditions on a position between two characters. -/
inductive Anchor where
  /-- The start of the text. -/
  | start
  /-- The start of the text or of a line. -/
  | lineStart
  /-- The end of the text, or right before a line feed that ends it. -/
  | finish
  /-- The end of the text or of a line. -/
  | lineFinish
  /-- The very end of the text. -/
  | textEnd
  /-- Between a word character and another. -/
  | boundary (alphabet : Alphabet)
  /-- Not between a word character and another; nowhere in the empty text. -/
  | inside (alphabet : Alphabet)
  deriving DecidableEq, Repr

/-- Where a look starts: here, or a fixed number of characters back. -/
inductive Side where
  | ahead
  | behind (width : Nat)
  deriving DecidableEq, Repr

/-- Which of its possible numbers of turns a repetition tries first; a possessive one tries no
other. -/
inductive Greed where
  | greedy
  | reluctant
  | possessive
  deriving DecidableEq, Repr

/-- A pattern. -/
inductive Node where
  | empty
  | set (s : CharSet)
  | seq (first second : Node)
  | alt (first second : Node)
  | group (index : Nat) (body : Node)
  | backref (index : Nat) (rule : CaseRule)
  | anchor (a : Anchor)
  | look (side : Side) (negated : Bool) (body : Node)
  | loop (greed : Greed) (least : Nat) (most : Option Nat) (body : Node)
  | atomic (body : Node)
  | branch (index : Nat) (present absent : Node)
  deriving DecidableEq, Repr

namespace Node

/-- One given character. -/
def char (c : Char) : Node := .set (.single c)

/-- The parts one after the other. -/
def sequence : List Node → Node
  | [] => .empty
  | [n] => n
  | n :: rest => .seq n (sequence rest)

/-- The parts as alternatives, the first one preferred. -/
def choice : List Node → Node
  | [] => .empty
  | [n] => n
  | n :: rest => .alt n (choice rest)

/-- The given text. -/
def literal (s : List Char) : Node := sequence (s.map char)

/-- The given word or mark. -/
def word (s : String) : Node := literal s.toList

/-- As many turns as possible, perhaps none. -/
def many (n : Node) : Node := .loop .greedy 0 none n

/-- As many turns as possible, at least one. -/
def oneOrMore (n : Node) : Node := .loop .greedy 1 none n

/-- One turn if possible. -/
def optional (n : Node) : Node := .loop .greedy 0 (some 1) n

/-- Any amount of white space. -/
def blanks : Node := many (.set .blank)

/-- White space, at least one character of it. -/
def gap : Node := oneOrMore (.set .blank)

/-- An identifier: a maximal run of its characters where nothing after it objects. -/
def identifier : Node := oneOrMore (.set .ident)

/-- No identifier character stands right before. -/
def notAfterIdent : Node := .look (.behind 1) true (.set .ident)

/-- An edge of a word. -/
def wordEdge : Node := .anchor (.boundary .unicode)

end Node

end ScriptModules.Pattern
