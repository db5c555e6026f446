import ScriptModules.Notice
import ScriptModules.SourceFile

/-!
# The export map

The registry of all exported names with the files that export them. The first file to claim a name
keeps it.
-/

namespace ScriptModules

/-- Exported names with their output paths, in order of registration. -/
abbrev ExportMap := List (String × String)

namespace ExportMap

/-- The output path of the file that exports a name. -/
def owner? (m : ExportMap) (name : String) : Option String := m.lookup name

/-- Registers one name for a file, unless it is taken. -/
def claim (m : ExportMap) (path outputPath name : String) : Noted ExportMap := do
  match m.owner? name with
  | none => return m ++ [(name, outputPath)]
  | some owner =>
    if owner ≠ outputPath then
      Noted.tell (.alreadyExported name (Path.fileName path) (Path.fileName owner))
    return m

/-- Registers the names of a file; only scripts export. -/
def register (m : ExportMap) (r : FileRecord) : Noted ExportMap :=
  if r.source.isScript then
    r.exports.foldlM (fun m e => m.claim r.source.path r.outputPath e.publicName) m
  else return m

/-- The export map of all files in order. -/
def build (records : List FileRecord) : Noted ExportMap := do
  let m ← records.foldlM register ([] : ExportMap)
  Noted.tell (.exportMapBuilt m.length)
  return m

end ExportMap

end ScriptModules
