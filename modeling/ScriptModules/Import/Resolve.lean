import ScriptModules.Dialect.Signature
import ScriptModules.EdgeCase
import ScriptModules.Notice

/-!
# The imports of a script

Five kinds of text show that a script needs a name: import clauses, merged prototypes, inherited
prototypes, instantiations and type checks. Names that the script itself exports are not imported.
-/

namespace ScriptModules

namespace Import

/-- The items of one import clause: names before the braces, then the items in braces. -/
def itemsOfClause (clause : List Char) : List (List Char) :=
  let clause := Statement.namespaceImport.remove clause
  let names := Statement.braceList.remove clause
  let defaults := Text.words (names.map fun c => if c == ',' then ' ' else c)
  let listed := (Statement.braceList.groupTexts 1 clause).flatMap fun inside =>
    ((Text.splitOn ',' inside).map Text.squeeze).filter (!·.isEmpty)
  defaults ++ listed

/-- The items of all import clauses. -/
def explicitItems (text : List Char) : List (List Char) :=
  (Statement.importClause.groupTexts 1 text).flatMap itemsOfClause

/-- The names whose prototypes are merged. -/
def mergedNames (namespaceName : String) (text : List Char) : List (List Char) :=
  ((Signature.merge namespaceName).groupTexts 0 text).flatMap fun found =>
    (Signature.prototypeOf namespaceName).groupTexts 1 found

/-- The names whose prototypes are inherited. -/
def inheritedNames (namespaceName : String) (text : List Char) : List (List Char) :=
  (Signature.inheritance namespaceName).groupTexts 1 text

/-- The names of the namespace that are instantiated. -/
def instantiatedNames (namespaceName : String) (text : List Char) : List (List Char) :=
  (Signature.keywordMember "new" namespaceName).groupTexts 1 text

/-- The names of the namespace that types are checked against. -/
def checkedNames (namespaceName : String) (text : List Char) : List (List Char) :=
  (Signature.keywordMember "instanceof" namespaceName).groupTexts 1 text

/-- All names that a script seems to need, in the order of the heuristics. -/
def candidates (namespaceName : String) (text : List Char) : List (List Char) :=
  explicitItems text ++ mergedNames namespaceName text ++ inheritedNames namespaceName text ++
    instantiatedNames namespaceName text ++ checkedNames namespaceName text

/-- Keeps the well-formed items that do not name an own export. -/
def external (own : List String) : List (List Char) → Noted (List Import)
  | [] => return []
  | item :: rest => do
    let name := String.ofList item
    if (Statement.importItem.matchWhole item).isNone then external own rest
    else if own.contains (importedName name) then
      Noted.tell (.selfReference name)
      external own rest
    else
      return .symbol name :: (← external own rest)

end Import

/-- The names that a script needs from other files. -/
def resolveImports (namespaceName : String) (exports : List Export) (edgeCase : Option EdgeCase)
    (text : String) : Noted (List Import) := do
  match edgeCase.bind (·.importsOverride) with
  | some imports => return imports
  | none =>
    let found ← Import.external (exports.map (·.publicName))
      (Import.candidates namespaceName text.toList)
    return unique (found ++ (edgeCase.map (·.imports)).getD [])

end ScriptModules
