import ScriptModules.Options.Issue

/-!
# Fields of options

A field has a key and may have a second one, which counts where the first is not given. Keys that
belong to no field are issues, and so are keys that are no texts.
-/

namespace ScriptModules

/-- The keys of a field. -/
structure Field where
  key : String
  other : Option String := none

namespace Field

/-- The value of a field, with the key under which it was found. -/
def find? (f : Field) (pairs : List (Value × Value)) : Option (String × Value) :=
  match Value.entry? f.key pairs with
  | some v => some (f.key, v)
  | none => f.other.bind fun k => (Value.entry? k pairs).map fun v => (k, v)

/-- Checks a field that may be missing. -/
def checkOr {α : Type} (f : Field) (pairs : List (Value × Value)) (default : α)
    (check : Value → Checked α) : Checked α :=
  match f.find? pairs with
  | none => .ok default
  | some (k, v) => (check v).under (.text k)

/-- Checks a field that must be there. -/
def checkRequired {α : Type} (f : Field) (pairs : List (Value × Value))
    (check : Value → Checked α) : Checked α :=
  match f.find? pairs with
  | none => (Checked.issue .missing).under (.text f.key)
  | some (k, v) => (check v).under (.text k)

/-- The keys that some field was found under. -/
def usedKeys (fields : List Field) (pairs : List (Value × Value)) : List String :=
  fields.filterMap fun f => (f.find? pairs).map (·.1)

/-- Checks one key of a mapping. -/
def checkKey (used : List String) (pair : Value × Value) : Checked Unit :=
  match pair.1 with
  | .str k => if used.contains k then .ok () else (Checked.issue .unknownKey).under (.text k)
  | k => (Checked.issue .keyNotText).under (.ofValue k)

/-- Checks that all keys belong to fields. -/
def checkKeys (fields : List Field) (pairs : List (Value × Value)) : Checked Unit :=
  (Checked.all (checkKey (usedKeys fields pairs)) pairs).map fun _ => ()

end Field

/-- Checks for a text. -/
def checkText : Value → Checked String
  | .str s => .ok s
  | _ => .issue .notText

end ScriptModules
