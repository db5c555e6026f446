import ScriptModules.Pattern.Problem
import ScriptModules.Text.Digit

/-!
# Reading written patterns

Written patterns and templates are read token by token. A token is one character, or a backslash
with the character after it. A text that ends in a lone backslash is refused as soon as the reader
comes to it.
-/

namespace ScriptModules.Pattern

/-- A character, perhaps with a backslash before it. -/
structure Token where
  escaped : Bool
  char : Char
  deriving DecidableEq, Repr

namespace Token

/-- The token as written. -/
def text (t : Token) : List Char :=
  if t.escaped then ['\\', t.char] else [t.char]

/-- The plain character `c`. -/
def isPlain (t : Token) (c : Char) : Bool := !t.escaped && t.char == c

end Token

/-- A written text and the part of it not yet read. -/
structure Reader where
  source : List Char
  pos : Nat := 0
  rest : List Char
  deriving Repr

namespace Reader

/-- The next token. -/
def next? (r : Reader) : Option Token :=
  match r.rest with
  | [] => none
  | '\\' :: c :: _ => some ⟨true, c⟩
  | c :: _ => some ⟨false, c⟩

/-- A fault, at a number of characters before the next token. -/
def fault (r : Reader) (f : Fault) (back : Nat) : Problem :=
  .malformed f r.source (some (r.pos - back))

/-- Refuses to come to a lone backslash at the end. -/
def checked (r : Reader) : Except Problem Reader :=
  if r.rest == ['\\']
    then .error (.malformed .endingBackslash r.source (some (r.source.length - 1)))
  else .ok r

/-- A reader at the start of a text. -/
def start (source : List Char) : Except Problem Reader :=
  checked ⟨source, 0, source⟩

/-- Moves over the next token. -/
def advance (r : Reader) : Except Problem Reader :=
  match r.next? with
  | none => .ok r
  | some t => checked ⟨r.source, r.pos + t.text.length, r.rest.drop t.text.length⟩

end Reader

/-- Something that is read from a written text. -/
abbrev Reading (σ : Type) := StateT (Reader × σ) (Except Problem)

namespace Reading

variable {σ : Type}

/-- The next token, left in place. -/
def peek : Reading σ (Option Token) := do
  return (← get).1.next?

/-- The next token is the plain character. -/
def peekIs (c : Char) : Reading σ Bool := do
  return (← peek).any (·.isPlain c)

/-- Reads the next token. -/
def next : Reading σ (Option Token) := do
  let s ← get
  let r ← s.1.advance
  set (r, s.2)
  return s.1.next?

/-- Reads the plain character if it comes next. -/
def accept (c : Char) : Reading σ Bool := do
  if ← peekIs c then
    discard next
    return true
  else
    return false

/-- Refuses the text at a number of characters before the next token. -/
def fail {α : Type} (f : Fault) (back : Nat) : Reading σ α := do
  throw ((← get).1.fault f back)

/-- The position of the next token. -/
def position : Reading σ Nat := do
  return (← get).1.pos

/-- Reads up to `n` plain characters of a class. -/
def takeWhile (p : Char → Bool) : Nat → Reading σ (List Char)
  | 0 => return []
  | n + 1 => do
    match ← peek with
    | some ⟨false, c⟩ =>
      if p c then
        discard next
        return c :: (← takeWhile p n)
      else
        return []
    | _ => return []

/-- The number of characters not yet read. -/
def remaining : Reading σ Nat := do
  return (← get).1.rest.length

/-- Reads a name up to its terminator; `read` is the part read so far, and the first argument bounds
the number of tokens. -/
def nameLoop (terminator : Char) (what : String) : Nat → List Char → Reading σ (List Char)
  | 0, read => return read
  | n + 1, read => do
    match ← next with
    | none =>
      if read.isEmpty then fail (.missingName what) 0
      else fail (.openName terminator) read.length
    | some t =>
      if t.isPlain terminator then
        if read.isEmpty then fail (.missingName what) 1 else return read
      else nameLoop terminator what n (read ++ t.text)

/-- Reads a name up to its terminator. -/
def nameUntil (terminator : Char) (what : String) : Reading σ (List Char) := do
  nameLoop terminator what ((← remaining) + 1) []

/-- Goes back to an earlier reader. -/
def returnTo (r : Reader) : Reading σ Unit :=
  modify fun s => (r, s.2)

/-- The reader itself. -/
def reader : Reading σ Reader := do
  return (← get).1

end Reading

/-- The control characters with an escape of their own. -/
def controlEscape? : Char → Option Char
  | 'a' => some '\x07'
  | 'b' => some '\x08'
  | 'f' => some '\x0c'
  | 'n' => some '\n'
  | 'r' => some '\r'
  | 't' => some '\t'
  | 'v' => some '\x0b'
  | '\\' => some '\\'
  | _ => none

end ScriptModules.Pattern
