import ScriptModules.Block.Basic
import ScriptModules.Export.Resolve
import ScriptModules.Import.Resolve
import ScriptModules.Rule.Build
import ScriptModules.Script.Segment

/-!
# Conversion of one text

One script on its own becomes a module, with the places of all other exports given.
-/

namespace ScriptModules

/-- A script to convert: its text with comments, its base name, the path of the module, and the
settings. -/
structure ScriptText where
  text : String
  namespaceName : String
  baseName : String
  path : String
  edgeCase : Option EdgeCase := none
  banner : String := ""

/-- The module that a script becomes, with what was found out about the script. -/
structure ConvertedText where
  classification : Classification
  exports : List Export
  imports : List Import
  output : String

/-- Converts one script. -/
def ScriptText.convert (s : ScriptText) (cwd : String) (exportMap : ExportMap) :
    Work ConvertedText := do
  let text := Script.stripComments s.text
  let classification := classify s.namespaceName text
  let exports ←
    Work.noted (resolveExports s.namespaceName s.baseName s.edgeCase classification text)
  let imports ← Work.noted (resolveImports s.namespaceName exports s.edgeCase text)
  let rules ← buildRules s.namespaceName exports s.edgeCase text
  let body ← Work.result (applyRules rules text)
  let importText ← importBlock cwd s.path exportMap imports
  let exportText ← exportBlock s.path exports
  let output := assemble s.banner importText body exportText
  return { classification, exports, imports, output }

end ScriptModules
