import ScriptModules.Text.Split

/-!
# Paths

Paths are texts with slashes between their components. A path is made absolute against the current
directory and normalised without looking at any file: empty components and single dots go away, and
two dots take the component before them away.
-/

namespace ScriptModules.Path

/-- The components between the slashes, empty ones included. -/
def components (p : String) : List String :=
  (Text.splitOn '/' p.toList).map String.ofList

/-- The components that are not empty. -/
def parts (p : String) : List String :=
  (components p).filter (!·.isEmpty)

/-- The path starts at the root. -/
def isAbsolute (p : String) : Bool := p.toList.head? == some '/'

/-- The path holds the character with which the system ends texts, so no file has it. -/
def hasNull (p : String) : Bool := p.toList.contains '\x00'

/-- Puts slashes between components. -/
def joinComponents (cs : List String) : String := "/".intercalate cs

/-- The second path as seen from the first. -/
def join (a b : String) : String :=
  if isAbsolute b then b
  else if a.isEmpty || a.toList.getLast? == some '/' then a ++ b
  else a ++ "/" ++ b

/-- The component after the last slash. -/
def fileName (p : String) : String :=
  String.ofList ((p.toList.reverse.takeWhile (· != '/')).reverse)

/-- Drops the slashes at the end, unless there is nothing else. -/
def dropEndSlashes (p : List Char) : List Char :=
  if p.all (· == '/') then p else (p.reverse.dropWhile (· == '/')).reverse

/-- What stands before the last component, without slashes at its end unless it is the root. -/
def parent (p : String) : String :=
  String.ofList (dropEndSlashes ((p.toList.reverse.dropWhile (· != '/')).reverse))

/-- Splits a file name before its last dot; dots at its start do not count. -/
def splitExtension (name : String) : String × String :=
  let cs := name.toList
  let dots := cs.takeWhile (· == '.')
  let rest := cs.dropWhile (· == '.')
  if rest.contains '.' then
    let back := rest.reverse
    let extension := '.' :: (back.takeWhile (· != '.')).reverse
    let base := ((back.dropWhile (· != '.')).drop 1).reverse
    (String.ofList (dots ++ base), String.ofList extension)
  else (name, "")

/-- Removes dots from components, with the ones kept so far latest first. Above the root there is
nothing; elsewhere leading double dots stay. -/
def resolveDots (rooted : Bool) : List String → List String → List String
  | kept, [] => kept.reverse
  | kept, c :: rest =>
    if c == "" || c == "." then resolveDots rooted kept rest
    else if c == ".." then
      match kept with
      | [] => if rooted then resolveDots rooted [] rest else resolveDots rooted [".."] rest
      | k :: others =>
        if k == ".." then resolveDots rooted (c :: kept) rest else resolveDots rooted others rest
    else resolveDots rooted (c :: kept) rest

/-- The slashes with which a normalised path starts: exactly two stay two. -/
def rootSlashes (p : String) : String :=
  match p.toList.takeWhile (· == '/') with
  | [] => ""
  | [_, _] => "//"
  | _ => "/"

/-- The path without empty components and, as far as possible, without dots. -/
def normalize (p : String) : String :=
  let root := rootSlashes p
  let result := root ++ joinComponents (resolveDots (!root.isEmpty) [] (components p))
  if result.isEmpty then "." else result

/-- The normalised path from the root, seen from a current directory. -/
def absolute (cwd p : String) : String :=
  normalize (if isAbsolute p then p else join cwd p)

/-- The components of the absolute path. -/
def absoluteComponents (cwd p : String) : List String :=
  parts (absolute cwd p)

/-- The length of the part that two lists start with alike. -/
def commonLength : List String → List String → Nat
  | a :: as, b :: bs => if a == b then commonLength as bs + 1 else 0
  | _, _ => 0

/-- The components that lead from one directory to a path. -/
def relativeComponents (start path : List String) : List String :=
  let shared := commonLength start path
  List.replicate (start.length - shared) ".." ++ path.drop shared

/-- The path as seen from a directory; the empty path leads nowhere. -/
def relative? (cwd path start : String) : Option String :=
  if path.isEmpty then none
  else
    let cs := relativeComponents (absoluteComponents cwd start) (absoluteComponents cwd path)
    some (if cs.isEmpty then "." else joinComponents cs)

/-- The path as written for a file that is to be opened: empty components and single dots are left
out. -/
def tidy (p : String) : String :=
  let root := rootSlashes p
  let result := root ++ joinComponents ((components p).filter fun c => !(c == "" || c == "."))
  if result.isEmpty then "." else result

end ScriptModules.Path
