import ScriptModules.EdgeCase
import ScriptModules.Options.Field

/-!
# Checked edge cases

The settings for one file, read from option values. Exports, imports and replacements are lists
whose items are read one by one up to the first that is wrong.
-/

namespace ScriptModules.EdgeCase

open Pattern (Problem CharacterNames)

/-- A fault of one item: words, or a pattern that repeats something too many times. -/
inductive ItemFault where
  | words (message : String)
  | tooManyTurns

/-- The refusal for a fault. -/
def ItemFault.refusal : ItemFault → Refusal
  | words message => .issues [⟨[], .value message⟩]
  | tooManyTurns => .tooManyTurns

/-- Reads an export: a name, or a list of a name, an action and a complement. -/
def exportOf (v : Value) : Except ItemFault Export :=
  match v with
  | .str name => return .plain name
  | v =>
    match v.items? with
    | some [name, action, complement] =>
      match action with
      | .str "from" => return .entry name.text .fromFile complement.text
      | .str "as" => return .entry name.text .asName complement.text
      | action => throw (.words s!"{action.report} is not a valid ExportAction")
    | _ =>
      throw (.words s!"Invalid export {v.report}, expected a name or [name, from|as, complement]")

/-- Reads an import: an item, or a list of a name, the word `from` and a specifier. -/
def importOf (v : Value) : Except ItemFault Import :=
  match v with
  | .str item => return .symbol item
  | v =>
    match v.items? with
    | some [name, .str "from", specifier] => return .explicit name.text specifier.text
    | _ => throw (.words s!"Invalid import {v.report}, expected a name or [name, from, specifier]")

/-- Reads a replacement: a list of a pattern and a template. -/
def replacementOf (characters : CharacterNames) (v : Value) : Except ItemFault WrittenRule :=
  match v.items? with
  | some [pattern, replacement] =>
    match WrittenRule.compile characters pattern.text replacement.text 0 with
    | .ok rule => return rule
    | .error .tooManyTurns => throw .tooManyTurns
    | .error .alphabetClash => throw (.words Problem.alphabetClash.message)
    | .error (.tooManyDigits digits) => throw (.words (Problem.tooManyDigits digits).message)
    | .error problem =>
      throw (.words s!"Invalid replacement pattern {pattern.report}: {problem.message}")
  | _ => throw (.words s!"Invalid replacement {v.report}, expected [pattern, replacement]")

/-- Reads the items of a list setting. -/
def itemsOf {α : Type} (what : String) (read : Value → Except ItemFault α) (v : Value) :
    Except ItemFault (List α) :=
  match v.items? with
  | some items => items.mapM read
  | none => throw (.words s!"Invalid {what}, expected a list")

/-- Checks a list setting. -/
def checkItems {α : Type} (what : String) (read : Value → Except ItemFault α) (v : Value) :
    Checked (List α) :=
  (itemsOf what read v).mapError (·.refusal)

/-- Checks a list setting that must not be null. -/
def checkList {α : Type} (what : String) (read : Value → Except ItemFault α) :
    Value → Checked (List α)
  | .null => .issue .notTuple
  | v => checkItems what read v

/-- Checks a setting that may be null. -/
def checkOverride {α : Type} (check : Value → Checked α) : Value → Checked (Option α)
  | .null => .ok none
  | v => (check v).map some

/-- The field of the exports that replace the derived ones. -/
def exportsOverrideField : Field := ⟨"exportsOverride", some "exports_override"⟩
/-- The field of the imports that replace the derived ones. -/
def importsOverrideField : Field := ⟨"importsOverride", some "imports_override"⟩
/-- The field of the rules that replace the derived ones. -/
def replacementsOverrideField : Field := ⟨"replacementsOverride", some "replacements_override"⟩
/-- The field of the path that replaces the derived one. -/
def outputOverrideField : Field := ⟨"outputOverride", some "output_override"⟩
/-- The field of additional exports. -/
def exportsField : Field := ⟨"exports", none⟩
/-- The field of additional imports. -/
def importsField : Field := ⟨"imports", none⟩
/-- The field of additional rules. -/
def replacementsField : Field := ⟨"replacements", none⟩

/-- All fields. -/
def fields : List Field :=
  [exportsOverrideField, importsOverrideField, replacementsOverrideField, outputOverrideField,
    exportsField, importsField, replacementsField]

/-- Checks the entries of a mapping. -/
def checkPairs (characters : CharacterNames) (pairs : List (Value × Value)) : Checked EdgeCase :=
  let e : Checked _ := .ok EdgeCase.mk
  let e :=
    e.apply
      (exportsOverrideField.checkOr pairs none (checkOverride (checkItems "exports" exportOf)))
  let e :=
    e.apply
      (importsOverrideField.checkOr pairs none (checkOverride (checkItems "imports" importOf)))
  let e := e.apply (replacementsOverrideField.checkOr pairs none
    (checkOverride (checkItems "replacements" (replacementOf characters))))
  let e := e.apply (outputOverrideField.checkOr pairs none (checkOverride checkText))
  let e := e.apply (exportsField.checkOr pairs [] (checkList "exports" exportOf))
  let e := e.apply (importsField.checkOr pairs [] (checkList "imports" importOf))
  let e :=
    e.apply
      (replacementsField.checkOr pairs [] (checkList "replacements" (replacementOf characters)))
  e.andThen (Field.checkKeys fields pairs)

/-- Checks the settings for one file. -/
def check (characters : CharacterNames) : Value → Checked EdgeCase
  | .map pairs => checkPairs characters pairs
  | _ => .issue (.notModel "EdgeCase")

end ScriptModules.EdgeCase
