import ScriptModules.Export.Basic

/-!
# Imports

A file needs names of other files. A symbol is looked up among all exports; an explicit import names
its source itself.
-/

namespace ScriptModules

/-- One needed name. -/
inductive Import where
  | symbol (item : String)
  | explicit (name specifier : String)
  deriving DecidableEq, Repr

/-- The exported name behind an item, which may rename it. -/
def importedName (item : String) : String :=
  String.ofList (Text.beforeFirst renamer item.toList)

namespace Import

/-- The item as it is written in an import statement. -/
def item : Import → String
  | symbol item => item
  | explicit name _ => name

end Import

end ScriptModules
