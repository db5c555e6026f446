import ScriptModules.Failure

/-!
# Discovery

The files at or below the inputs, each input in turn and every directory in the order of its names.
Files can be excluded by their name or by a part of their path.
-/

namespace ScriptModules

/-- The files at or below a path; the first argument bounds the depth. -/
def filesBelow (t : FileTree) (cwd : String) : Nat → String → Except Failure (List String)
  | 0, path => throw (.missingInput path)
  | depth + 1, path =>
    match t.entryAt? cwd path with
    | none => throw (.missingInput path)
    | some (_, .file _) => return [path]
    | some (dir, .directory) => do
      let files ← (t.names dir).mapM fun name => filesBelow t cwd depth (Path.join path name)
      return files.flatten
    | some _ => throw (.oddEntry path)

/-- The files of all inputs, each with the absolute path of its input. -/
def discover (t : FileTree) (cwd : String) (inputs : List String) :
    Except Failure (List (String × String)) := do
  let found ← inputs.mapM fun input => do
    let root := Path.absolute cwd input
    let files ← filesBelow t cwd t.depthBound root
    return files.map fun path => (path, root)
  return found.flatten

/-- A pattern with a dot excludes files of that name, any other excludes paths that contain it; the
empty one excludes nothing. -/
def excludedBy (path pattern : String) : Bool :=
  if pattern.isEmpty then false
  else if pattern.toList.contains '.' then Path.fileName path == pattern
  else Text.occurs pattern.toList path.toList

/-- Some pattern excludes the file. -/
def isExcluded (path : String) (patterns : List String) : Bool :=
  patterns.any (excludedBy path)

end ScriptModules
