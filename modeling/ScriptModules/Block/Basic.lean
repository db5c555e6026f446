import ScriptModules.ExportMap
import ScriptModules.Failure

/-!
# Statement blocks

The import block in front of a converted script and the export block after it. Imports are grouped
by their source, in the order in which the sources are first needed; entries are exported one by
one, and plain names together.
-/

namespace ScriptModules

/-- The words between braces: one name on the line, or each on a line of its own. -/
def braced (keyword : String) (items : List String) : String :=
  match items with
  | [item] => keyword ++ " \x7b " ++ item ++ " \x7d"
  | items => keyword ++ " \x7b\n" ++ ",\n".intercalate (items.map ("\t" ++ ·)) ++ "\n\x7d"

/-- A slash for a backslash. -/
def slashed (c : Char) : Char := if c == '\\' then '/' else c

/-- The specifier starts at the directory of the importing file or above it. -/
def startsWithDots (specifier : List Char) : Bool :=
  "./".toList.isPrefixOf specifier || "../".toList.isPrefixOf specifier

/-- The specifier that leads from one file to another. -/
def relativeSpecifier (cwd importer exporter : String) : Except Failure String :=
  match Path.relative? cwd (Path.parent exporter) (Path.parent importer) with
  | none => throw .noPath
  | some dir =>
    let specifier := (Path.join dir (Path.fileName exporter)).toList.map slashed
    return String.ofList (if startsWithDots specifier then specifier else '.' :: '/' :: specifier)

/-- Items grouped by specifier, in order of first use. -/
abbrev ImportGroups := List (String × List String)

/-- Adds an item to the group of its specifier. -/
def ImportGroups.add (groups : ImportGroups) (specifier item : String) : ImportGroups :=
  match groups with
  | [] => [(specifier, [item])]
  | (s, items) :: rest =>
    if s = specifier then (s, items ++ [item]) :: rest
    else (s, items) :: add rest specifier item

/-- The specifier of an import; a symbol that nobody exports has none. -/
def specifierOf (cwd importer : String) (exportMap : ExportMap) :
    Import → Except Failure (Option String)
  | .explicit _ specifier => return some specifier
  | .symbol item =>
    match exportMap.owner? (importedName item) with
    | none => return none
    | some exporter => do return some (← relativeSpecifier cwd importer exporter)

/-- The imports of a file grouped by specifier. -/
def groupImports (cwd importer : String) (exportMap : ExportMap) :
    List Import → ImportGroups → Work ImportGroups
  | [], groups => return groups
  | i :: rest, groups => do
    match ← Work.result (specifierOf cwd importer exportMap i) with
    | some specifier => groupImports cwd importer exportMap rest (groups.add specifier i.item)
    | none =>
      Work.tell (.missingExport i.item importer)
      groupImports cwd importer exportMap rest groups

/-- The import statement of one group. -/
def importStatement (group : String × List String) : String :=
  braced "import" group.2 ++ " from '" ++ group.1 ++ "'"

/-- The statements of import groups, and a blank line if there are any. -/
def importStatements (groups : ImportGroups) : String :=
  if groups.isEmpty then "" else "\n".intercalate (groups.map importStatement) ++ "\n\n"

/-- The import block of a file. -/
def importBlock (cwd importer : String) (exportMap : ExportMap) (imports : List Import) :
    Work String := do
  return importStatements (← groupImports cwd importer exportMap imports [])

/-- The statement that exports an entry. -/
def entryStatement (name : String) (action : ExportAction) (complement : String) :
    Except Failure String :=
  match action with
  | .fromFile => return "export \x7b " ++ name ++ " \x7d from \"" ++ complement ++ "\"\n"
  | .asName => return "export \x7b " ++ name ++ " as " ++ complement ++ " \x7d\n"
  | .other word => throw (.unknownAction word)

/-- The statement of an export, if it is an entry. -/
def exportStatement : Export → Except Failure String
  | .plain _ => return ""
  | .entry name action complement => entryStatement name action complement

/-- The statement that exports plain names together. -/
def plainStatement (names : List String) : String :=
  if names.isEmpty then "" else "\n" ++ braced "export" names ++ "\n"

/-- The export block of a file. -/
def exportBlock (path : String) (exports : List Export) : Work String := do
  if exports.isEmpty then
    Work.tell (.noExportBlock (Path.fileName path))
    return ""
  let entries ← Work.result (exports.mapM exportStatement)
  return "".intercalate entries ++ plainStatement (exports.filterMap Export.plain?)

/-- A converted file. -/
def assemble (banner imports body exports : String) : String :=
  banner ++ imports ++ body ++ exports

end ScriptModules
