import ScriptModules.Pattern.Template

/-!
# Replacement rules

A rule replaces the matches of a pattern by a template. Rules are applied one after the other, each
to the outcome of the one before.
-/

namespace ScriptModules

open Pattern (Node Template Problem Compiled CharacterNames)

/-- A replacement. A count of zero stands for all matches; below zero there are none. A template
that cannot be read fails when the rule is applied. -/
structure Rule where
  pattern : Node
  template : Except Problem Template
  count : Int := 0

namespace Rule

/-- How many matches are replaced at most. -/
def room (r : Rule) : Option Nat :=
  if r.count == 0 then none else some r.count.toNat

/-- Applies the rule to a text. -/
def apply (r : Rule) (text : List Char) : Except Problem (List Char) := do
  let t ← r.template
  return r.pattern.replace r.room t.expand text

/-- A rule that puts a fixed text in the place of every match. -/
def replacing (pattern : Node) (s : String) : Rule :=
  ⟨pattern, .ok (.verbatim s), 0⟩

/-- A rule that removes every match. -/
def removing (pattern : Node) : Rule := replacing pattern ""

/-- The same rule for the first match only. -/
def onlyFirst (r : Rule) : Rule := { r with count := 1 }

/-- Applies rules in order. -/
def applyAll (rules : List Rule) (text : List Char) : Except Problem (List Char) :=
  rules.foldlM (fun current r => r.apply current) text

/-- Applies rules in order and records, for each one that changed the text, its index and the text
after it. -/
def trace : Nat → List Rule → List Char → Except Problem (List (Nat × List Char) × List Char)
  | _, [], text => return ([], text)
  | index, r :: rest, text => do
    let next ← r.apply text
    let (steps, result) ← trace (index + 1) rest next
    return (if next = text then steps else (index, next) :: steps, result)

end Rule

/-- A rule with the pattern and template from which it was read. -/
structure WrittenRule where
  source : String
  replacement : String
  rule : Rule

namespace WrittenRule

/-- Reads the pattern of a rule; its template is read too, but may be faulty. -/
def compile (characters : CharacterNames) (source replacement : String) (count : Int) :
    Except Problem WrittenRule := do
  let c ← Compiled.parse characters source.toList
  return ⟨source, replacement, ⟨c.node, Template.parse c replacement.toList, count⟩⟩

end WrittenRule

end ScriptModules
