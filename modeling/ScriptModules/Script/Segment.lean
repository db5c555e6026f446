import ScriptModules.Text.Blank
import ScriptModules.Text.Word

/-!
# Segments of a script

A script is cut from left to right into segments: quoted pieces, comments, regular expression
literals, words and single marks. A slash opens a regular expression literal where no operand stands
before it; what stands before is the last segment that is neither a comment nor a blank. Removing
the comments keeps all other segments, and the line feed that ends a line comment.
-/

namespace ScriptModules.Script

/-- The kinds of segments. -/
inductive SegmentKind where
  | quoted
  | lineComment
  | blockComment
  | regex
  | word
  | mark
  deriving DecidableEq, Repr

/-- A segment with its text. -/
structure Segment where
  kind : SegmentKind
  text : List Char
  deriving DecidableEq, Repr

namespace Segment

/-- The segment is a comment. -/
def isComment (s : Segment) : Bool :=
  s.kind == .lineComment || s.kind == .blockComment

end Segment

/-- After these marks a slash opens a regular expression literal. -/
def operandMarks : List Char := "(,=:[!&|?\x7b\x7d;+-*%<>~^".toList

/-- After these words a slash opens a regular expression literal. -/
def operandWords : List String :=
  ["return", "typeof", "case", "in", "of", "delete", "void", "throw",
    "new", "instanceof", "else", "do", "yield", "await"]

/-- What stands before a slash: nothing, a mark or a word. -/
inductive Before where
  | nothing
  | mark (c : Char)
  | word (w : List Char)
  deriving DecidableEq, Repr

/-- A slash here opens a regular expression literal. -/
def Before.opensRegex : Before → Bool
  | .nothing => true
  | .mark c => operandMarks.contains c
  | .word w => operandWords.contains (String.ofList w)

/-- Cuts off the rest of a quoted piece, after its opening quote. A line feed ends a piece in single
or double quotes and is not part of it. -/
def cutQuoted (quote : Char) : List Char → List Char × List Char
  | [] => ([], [])
  | ['\\'] => (['\\'], [])
  | '\\' :: c :: rest =>
    let (piece, rest') := cutQuoted quote rest
    ('\\' :: c :: piece, rest')
  | c :: rest =>
    if c == quote then ([c], rest)
    else if c == '\n' && quote != '\x60' then ([], c :: rest)
    else
      let (piece, rest') := cutQuoted quote rest
      (c :: piece, rest')

/-- Cuts off the rest of a regular expression literal, after its opening slash. Inside brackets a
slash does not end it, a line feed always does and is not part of it. -/
def cutRegex (inClass : Bool) : List Char → List Char × List Char
  | [] => ([], [])
  | ['\\'] => (['\\'], [])
  | '\\' :: c :: rest =>
    let (piece, rest') := cutRegex inClass rest
    ('\\' :: c :: piece, rest')
  | c :: rest =>
    if c == '\n' then ([], c :: rest)
    else if c == '/' && !inClass then ([c], rest)
    else
      let (piece, rest') := cutRegex (c == '[' || (inClass && c != ']')) rest
      (c :: piece, rest')

/-- Cuts off the rest of a block comment, after its opening; without an end it takes everything. -/
def cutBlock : List Char → List Char × List Char
  | [] => ([], [])
  | '*' :: '/' :: rest => (['*', '/'], rest)
  | c :: rest =>
    let (piece, rest') := cutBlock rest
    (c :: piece, rest')

/-- The quotes of scripts. -/
def isQuote (c : Char) : Bool :=
  c == '\x27' || c == '"' || c == '\x60'

/-- Cuts off the first segment of a text that starts with `c`. -/
def cut (before : Before) (c : Char) (rest : List Char) : Segment × List Char :=
  if isQuote c then
    let (piece, rest') := cutQuoted c rest
    (⟨.quoted, c :: piece⟩, rest')
  else if c == '/' && rest.head? == some '/' then
    (⟨.lineComment, c :: rest.takeWhile (· != '\n')⟩, rest.dropWhile (· != '\n'))
  else if c == '/' && rest.head? == some '*' then
    let (piece, rest') := cutBlock rest.tail
    (⟨.blockComment, c :: '*' :: piece⟩, rest')
  else if c == '/' && before.opensRegex then
    let (piece, rest') := cutRegex false rest
    (⟨.regex, c :: piece⟩, rest')
  else if Text.isIdent c then
    (⟨.word, c :: rest.takeWhile Text.isIdent⟩, rest.dropWhile Text.isIdent)
  else
    (⟨.mark, [c]⟩, rest)

/-- What stands before the text after a segment. -/
def Before.next (before : Before) (s : Segment) : Before :=
  match s.kind, s.text with
  | .quoted, c :: _ => .mark c
  | .regex, c :: _ => .mark c
  | .word, w => .word w
  | .mark, c :: _ => if Text.isBlank c then before else .mark c
  | _, _ => before

/-- Cuts a text into segments; each takes at least one character, so the length bounds their
number. -/
def segmentsFrom : Nat → Before → List Char → List Segment
  | 0, _, _ => []
  | _, _, [] => []
  | n + 1, before, c :: rest =>
    let (s, rest') := cut before c rest
    s :: segmentsFrom n (before.next s) rest'

/-- The segments of a script. -/
def segments (text : List Char) : List Segment :=
  segmentsFrom text.length .nothing text

theorem cutQuoted_text (quote : Char) (s : List Char) :
    (cutQuoted quote s).1 ++ (cutQuoted quote s).2 = s := by
  fun_induction cutQuoted quote s <;> simp_all

theorem cutRegex_text (inClass : Bool) (s : List Char) :
    (cutRegex inClass s).1 ++ (cutRegex inClass s).2 = s := by
  fun_induction cutRegex inClass s <;> simp_all

theorem cutBlock_text (s : List Char) : (cutBlock s).1 ++ (cutBlock s).2 = s := by
  fun_induction cutBlock s <;> simp_all

/-- Cutting off a segment loses nothing. -/
theorem cut_text (before : Before) (c : Char) (rest : List Char) :
    (cut before c rest).1.text ++ (cut before c rest).2 = c :: rest := by
  unfold cut
  split
  · simpa using cutQuoted_text c rest
  split
  · simp [List.takeWhile_append_dropWhile]
  split
  · rename_i h
    obtain ⟨_, h⟩ := Bool.and_eq_true _ _ ▸ h
    cases rest with
    | nil => simp at h
    | cons d others =>
      have hd : d = '*' := by simpa using h
      subst hd
      simpa using cutBlock_text others
  split
  · simpa using cutRegex_text false rest
  split
  · simp [List.takeWhile_append_dropWhile]
  · rfl

/-- The text without its comments. -/
def withoutComments (text : List Char) : List Char :=
  ((segments text).filter (!·.isComment)).flatMap (·.text)

/-- The script without its comments. -/
def stripComments (text : String) : String :=
  String.ofList (withoutComments text.toList)

end ScriptModules.Script
