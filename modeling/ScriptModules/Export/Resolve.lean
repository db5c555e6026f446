import ScriptModules.Dialect.Classify
import ScriptModules.EdgeCase
import ScriptModules.Notice

/-!
# The exports of a script

Every dialect has its own way to read exports off a script. Where it finds none, the script exports
its own base name. An edge case may replace or extend what is found, and each export is listed once.
-/

namespace ScriptModules

open Pattern (Match)

/-- Words that may follow an assignment of a module's exports without naming a symbol. -/
def nonSymbols : List String :=
  ["function", "class", "new", "require", "this", "null", "undefined",
    "true", "false", "typeof", "void", "await", "async", "yield"]

namespace Export

/-- The export of one item of a braced list. -/
def ofListItem (baseName : String) (source : Option (List Char)) (item : List Char) :
    Noted (List Export) := do
  let item := Text.squeeze item
  if item.isEmpty then return []
  match source with
  | some s => return [.entry (String.ofList item) .fromFile (String.ofList s)]
  | none =>
    match Statement.renamedItem.matchStart item with
    | some m => return [.entry (String.ofList (m.group 1)) .asName (String.ofList (m.group 2))]
    | none =>
      if (Statement.loneIdentifier.matchStart item).isSome then
        return [.plain (String.ofList item)]
      else
        Noted.tell (.badExportItem (String.ofList item) baseName)
        return []

/-- The exports of an export statement. -/
def ofStatement (baseName : String) (m : Match) : Noted (List Export) := do
  match m.group? 4 with
  | some declared => return [.plain (String.ofList declared)]
  | none =>
    let items ← (Text.splitOn ',' (m.group 1)).mapM (ofListItem baseName (m.group? 3))
    return items.flatten

/-- The exports that export statements declare. -/
def fromStatements (baseName : String) (text : List Char) : Noted (List Export) := do
  let exports ← (Statement.exportStatement.allMatches text).mapM (ofStatement baseName)
  return exports.flatten

/-- The export of one property of an object. -/
def ofProperty (baseName : String) (item : List Char) : Noted (List Export) := do
  let item := Text.trim item
  if item.isEmpty then return []
  match Statement.property.matchStart item with
  | none =>
    Noted.tell (.badProperty (String.ofList item) baseName)
    return []
  | some m =>
    let key := m.group 1
    match m.group? 2 with
    | some value =>
      if value = key then return [.plain (String.ofList key)]
      else return [.entry (String.ofList value) .asName (String.ofList key)]
    | none => return [.plain (String.ofList key)]

/-- The exports that one assignment of a module's exports declares. -/
def ofAssignment (baseName : String) (assignment : List Char) : Noted (List Export) := do
  match Signature.cjs.search assignment with
  | none => return []
  | some m =>
    match m.group? 2 with
    | some name =>
      let single := String.ofList name
      if nonSymbols.contains single || name.head?.any Text.isDigitLike then
        Noted.tell (.notASymbol baseName single)
        return []
      else
        return [.plain single]
    | none =>
      let items ← (Text.splitOn ',' (m.group 1)).mapM (ofProperty baseName)
      return items.flatten

/-- The exports that a dialect reads off a script. -/
def extract (namespaceName baseName : String) (c : Classification) (text : String) :
    Noted (List Export) := do
  match c.dialect with
  | .es6 => fromStatements baseName text.toList
  | .amd =>
    Noted.tell (.amdModule baseName)
    return []
  | .cjs =>
    let exports ← c.found.mapM fun s => ofAssignment baseName s.toList
    return exports.flatten
  | .classic =>
    return c.found.flatMap fun s =>
      ((Signature.target namespaceName).groupTexts 1 s.toList).map fun name =>
        .plain (String.ofList name)
  | .prototype | .library => return c.found.map .plain
  | .umd | .unknown =>
    Noted.tell (.fallback baseName c.dialect)
    return [.plain baseName]

end Export

/-- The exports of a classified script. -/
def resolveExports (namespaceName baseName : String) (edgeCase : Option EdgeCase)
    (c : Classification) (text : String) : Noted (List Export) := do
  match edgeCase.bind (·.exportsOverride) with
  | some exports => return exports
  | none =>
    let found ← Export.extract namespaceName baseName c text
    let exports ←
      if found.isEmpty then
        Noted.tell (.noExports baseName)
        pure [.plain baseName]
      else pure found
    return unique (exports ++ (edgeCase.map (·.exports)).getD [])

end ScriptModules
