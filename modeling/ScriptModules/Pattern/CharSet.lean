import ScriptModules.Text.Blank
import ScriptModules.Text.Case
import ScriptModules.Text.Word

/-!
# Sets of characters

A set of characters lists single characters, ranges of code points and kinds of characters, may be
complemented, and may disregard letter case.
-/

namespace ScriptModules.Pattern

/-- The characters that a kind, a word boundary or case folding knows of. -/
inductive Alphabet where
  | unicode
  | ascii
  deriving DecidableEq, Repr

/-- The named kinds of characters. -/
inductive CharKind where
  | word
  | digit
  | blank
  deriving DecidableEq, Repr

/-- The character is of the kind. -/
def CharKind.holds : CharKind → Alphabet → Char → Bool
  | .word, .unicode, c => Text.isWord c
  | .word, .ascii, c => Text.isAsciiWord c
  | .digit, .unicode, c => Text.isDecimal c
  | .digit, .ascii, c => c.isDigit
  | .blank, .unicode, c => Text.isBlank c
  | .blank, .ascii, c => Text.isAsciiBlank c

/-- How characters are compared: as they are, or up to letter case within an alphabet. -/
inductive CaseRule where
  | exact
  | fold (alphabet : Alphabet)
  deriving DecidableEq, Repr

/-- The code points that count as `n` under the rule. -/
def CaseRule.variants : CaseRule → Nat → List Nat
  | .exact, n => [n]
  | .fold .unicode, n => Text.caseVariants n
  | .fold .ascii, n =>
    if 65 ≤ n && n ≤ 90 then [n, n + 32]
    else if 97 ≤ n && n ≤ 122 then [n, n - 32]
    else [n]

/-- Two characters are equal under the rule. -/
def CaseRule.agree : CaseRule → Char → Char → Bool
  | .exact, c, d => c == d
  | .fold .unicode, c, d => Text.caseKey c.toNat == Text.caseKey d.toNat
  | .fold .ascii, c, d => Text.lowerAscii c.toNat == Text.lowerAscii d.toNat

/-- Two characters have the same lower-case form under the rule. -/
def CaseRule.sameLower : CaseRule → Char → Char → Bool
  | .exact, c, d => c == d
  | .fold .unicode, c, d => Text.lower c.toNat == Text.lower d.toNat
  | .fold .ascii, c, d => Text.lowerAscii c.toNat == Text.lowerAscii d.toNat

/-- One entry of a set. A range may hold code points that no character has. -/
inductive SetItem where
  | char (c : Char)
  | range (first last : Nat)
  | kind (k : CharKind) (alphabet : Alphabet) (negated : Bool)
  deriving DecidableEq, Repr

/-- The entry holds the character, compared by the rule. -/
def SetItem.holds (rule : CaseRule) : SetItem → Char → Bool
  | .char d, c => rule.agree c d
  | .range first last, c => (rule.variants c.toNat).any fun n => first ≤ n && n ≤ last
  | .kind k alphabet negated, c => k.holds alphabet c != negated

/-- A set of characters. -/
structure CharSet where
  items : List SetItem
  negated : Bool := false
  rule : CaseRule := .exact
  deriving DecidableEq, Repr

namespace CharSet

/-- Membership of a character. -/
def contains (s : CharSet) (c : Char) : Bool :=
  s.items.any (·.holds s.rule c) != s.negated

/-- The set of one character. -/
def single (c : Char) : CharSet := ⟨[.char c], false, .exact⟩

/-- All characters but one. -/
def allBut (c : Char) : CharSet := ⟨[.char c], true, .exact⟩

/-- Every character. -/
def all : CharSet := ⟨[], true, .exact⟩

/-- The white space characters. -/
def blank : CharSet := ⟨[.kind .blank .unicode false], false, .exact⟩

/-- The characters of identifiers, and the given ones. -/
def identOr (extra : List Char) : CharSet :=
  ⟨.kind .word .unicode false :: .char '$' :: extra.map .char, false, .exact⟩

/-- The characters of identifiers. -/
def ident : CharSet := identOr []

@[simp] theorem contains_single (c d : Char) : (single c).contains d = (d == c) := by
  simp [contains, single, SetItem.holds, CaseRule.agree]

@[simp] theorem contains_allBut (c d : Char) : (allBut c).contains d = (d != c) := by
  simp [contains, allBut, SetItem.holds, CaseRule.agree, bne]

@[simp] theorem contains_all (c : Char) : all.contains c = true := rfl

@[simp] theorem contains_blank (c : Char) : blank.contains c = Text.isBlank c := by
  simp [contains, blank, SetItem.holds, CharKind.holds]

@[simp] theorem contains_ident (c : Char) : ident.contains c = Text.isIdent c := by
  simp [contains, ident, identOr, SetItem.holds, CharKind.holds, CaseRule.agree, Text.isIdent]

end CharSet

end ScriptModules.Pattern
