import ScriptModules.FileTree.Basic

/-!
# Paths without links

The path of what another path leads to, with every symbolic link on the way replaced by its target.
Components that do not exist are kept as they are. A link that leads back to itself stays, with all
that follows it.
-/

namespace ScriptModules

/-- A path with its links replaced, or as far as they can be. -/
structure Resolved where
  path : List String
  complete : Bool
  deriving DecidableEq, Repr

namespace FileTree

/-- Follows components from a directory. `follow` gives what a link stands for, from the directory
of the link, its path and its target. -/
def resolveWith (t : FileTree) (follow : List String → List String → String → Resolved) :
    List String → List String → Resolved
  | dir, [] => ⟨dir, true⟩
  | dir, c :: rest =>
    if c == "" || c == "." then resolveWith t follow dir rest
    else if c == ".." then resolveWith t follow dir.dropLast rest
    else
      let path := dir ++ [c]
      match t.get? path with
      | some (.link target) =>
        let r := follow dir path target
        if r.complete then resolveWith t follow r.path rest else ⟨r.path ++ rest, false⟩
      | _ => resolveWith t follow path rest

/-- Follows components from a directory inside the given links. The first argument bounds their
number. -/
def resolveInside (t : FileTree) : Nat → List (List String) → List String → List String → Resolved
  | 0, _ => t.resolveWith fun _ path _ => ⟨path, false⟩
  | n + 1, inside => t.resolveWith fun dir path target =>
    if inside.contains path then ⟨path, false⟩
    else
      t.resolveInside n (path :: inside) (if Path.isAbsolute target then [] else dir)
        (Path.components target)

/-- The absolute path without links of what a path leads to from a directory. -/
def resolve (t : FileTree) (dir : List String) (path : String) : String :=
  let start := if Path.isAbsolute path then [] else dir
  let r := t.resolveInside (t.entries.length + 1) [] start (Path.components path)
  "/" ++ Path.joinComponents (Path.resolveDots true [] r.path)

/-- The absolute path without links; an error if it still leads through too many of them, or if no
file can have the path. -/
def resolve? (t : FileTree) (dir : List String) (path : String) : Except FileError String :=
  let p := t.resolve dir path
  if Path.hasNull path then throw ⟨.nullByte, p⟩
  else
    match t.place "/" true p with
    | .error .linkLoop => throw ⟨.linkLoop, p⟩
    | _ => return p

end FileTree

end ScriptModules
