import ScriptModules.Path.Basic
import ScriptModules.Text.Quoted

/-!
# File trees

A file tree holds files, directories, symbolic links and pipes under absolute paths. A path is
followed component by component from the current directory or the root; symbolic links on the way
are replaced by their targets, at most forty of them.
-/

namespace ScriptModules

/-- What stands at a path. -/
inductive Entry where
  | file (bytes : List UInt8)
  | directory
  | link (target : String)
  | pipe
  deriving DecidableEq, Repr

/-- Why a path cannot be used. -/
inductive FileFault where
  | noEntry
  | entryExists
  | notDirectory
  | isDirectory
  | linkLoop
  /-- No file can have the path. -/
  | nullByte
  deriving DecidableEq, Repr

/-- The words of a fault, with the number that the system gives it. -/
def FileFault.describe : FileFault → Option Nat × String
  | noEntry => (some 2, "No such file or directory")
  | entryExists => (some 17, "File exists")
  | notDirectory => (some 20, "Not a directory")
  | isDirectory => (some 21, "Is a directory")
  | linkLoop => (some 40, "Too many levels of symbolic links")
  | nullByte => (none, "embedded null byte")

/-- A fault with the path concerned. -/
structure FileError where
  fault : FileFault
  path : String
  deriving DecidableEq, Repr

/-- The error in words. -/
def FileError.message (e : FileError) : String :=
  match e.fault.describe with
  | (some number, words) => s!"[Errno {number}] {words}: {Text.quote e.path}"
  | (none, words) => words

/-- The entries by the components of their absolute paths; the root directory is always there. -/
structure FileTree where
  entries : List (List String × Entry) := []
  deriving DecidableEq, Repr

/-- Where a path leads: to an entry, or to a free place in a directory. -/
inductive Place where
  | found (path : List String) (entry : Entry)
  | free (path : List String) (slash : Bool)
  deriving DecidableEq, Repr

namespace FileTree

/-- The entry at a path. -/
def get? (t : FileTree) : List String → Option Entry
  | [] => some .directory
  | path => t.entries.lookup path

/-- Puts an entry at a path. -/
def insert (t : FileTree) (path : List String) (e : Entry) : FileTree :=
  ⟨(path, e) :: t.entries.filter fun p => p.1 != path⟩

/-- Removes the entry at a path and all below it. -/
def erase (t : FileTree) (path : List String) : FileTree :=
  ⟨t.entries.filter fun p => !path.isPrefixOf p.1⟩

/-- The last component of a path that stands right below a directory. -/
def childName? (dir path : List String) : Option String :=
  if dir.isPrefixOf path then
    match path.drop dir.length with
    | [name] => some name
    | _ => none
  else none

/-- The order of names by their characters. -/
def nameLe (a b : String) : Bool := decide (a ≤ b)

/-- The names in a directory, in order. -/
def names (t : FileTree) (dir : List String) : List String :=
  (t.entries.filterMap fun p => childName? dir p.1).mergeSort nameLe

/-- The entry that a write put in place is there, and no other has changed. -/
theorem get?_insert {t : FileTree} {path other : List String} {e : Entry} (h : path ≠ []) :
    (t.insert path e).get? other = if other = path then some e else t.get? other := by
  cases other with
  | nil => simp [get?, h.symm]
  | cons c cs =>
    simp only [get?, insert, List.lookup_cons]
    by_cases hc : c :: cs = path
    · simp [hc]
    · have hb : ((c :: cs) == path) = false := by simpa using hc
      simp only [hb, hc, if_false]
      induction t.entries with
      | nil => rfl
      | cons x xs ih =>
        obtain ⟨key, entry⟩ := x
        by_cases hx : key = path
        · subst hx
          simp [List.lookup_cons, ih, hb]
        · simp [List.lookup_cons, hx, ih]

/-- Follows components from a directory. `jump` takes over at a link that is to be followed, with
the directory of the link, its target and the components after it. -/
def walkWith (t : FileTree) (followLast : Bool)
    (jump : List String → String → List String → Except FileFault Place) :
    List String → List String → Except FileFault Place
  | dir, [] => return .found dir .directory
  | dir, c :: rest =>
    if c == "" || c == "." then walkWith t followLast jump dir rest
    else if c == ".." then walkWith t followLast jump dir.dropLast rest
    else
      let path := dir ++ [c]
      match t.get? path with
      | none => if rest.all (·.isEmpty) then return .free path (!rest.isEmpty) else throw .noEntry
      | some .directory => walkWith t followLast jump path rest
      | some (.link target) =>
        if rest.isEmpty && !followLast then return .found path (.link target)
          else jump dir target rest
      | some e => if rest.isEmpty then return .found path e else throw .notDirectory

/-- Follows components from a directory through at most the given number of links. -/
def walk (t : FileTree) (followLast : Bool) :
    Nat → List String → List String → Except FileFault Place
  | 0 => t.walkWith followLast fun _ _ _ => throw .linkLoop
  | links + 1 => t.walkWith followLast fun dir target rest =>
    t.walk followLast links (if Path.isAbsolute target then [] else dir)
      (Path.components target ++ rest)

/-- The number of links that a path may lead through. -/
def linkLimit : Nat := 40

/-- Follows a path, and a link at its end if asked to. -/
def place (t : FileTree) (cwd : String) (followLast : Bool) (path : String) :
    Except FileFault Place :=
  if path.isEmpty then throw .noEntry
  else t.walk followLast linkLimit (if Path.isAbsolute path then [] else Path.parts cwd)
    (Path.components path)

/-- The entry to which a path leads through all links, with its own path. -/
def entryAt? (t : FileTree) (cwd : String) (path : String) : Option (List String × Entry) :=
  match t.place cwd true path with
  | .ok (.found p e) => some (p, e)
  | _ => none

/-- The path leads to an entry. -/
def hasEntry (t : FileTree) (cwd : String) (path : String) : Bool :=
  (t.entryAt? cwd path).isSome

/-- The path leads to a directory. -/
def hasDirectory (t : FileTree) (cwd : String) (path : String) : Bool :=
  (t.entryAt? cwd path).any (·.2 == .directory)

/-- Works on a path, and names the path of a fault. -/
def onPath {α : Type} (path : String) (x : Except FileFault α) : Except FileError α :=
  if Path.hasNull path then throw ⟨.nullByte, path⟩ else x.mapError fun f => ⟨f, path⟩

/-- The bytes of a file. A pipe has none, as nobody stands at its other end. -/
def readBytes (t : FileTree) (cwd : String) (path : String) : Except FileError (List UInt8) :=
  onPath path do
    match ← t.place cwd true path with
    | .found _ (.file bytes) => return bytes
    | .found _ .directory => throw .isDirectory
    | .found _ _ | .free _ _ => throw .noEntry

/-- The place of the file that a path opens for writing: the one it leads to, or a free one in a
directory. A pipe takes nothing. -/
def placeToWrite (t : FileTree) (cwd : String) (path : String) : Except FileError (List String) :=
  onPath path do
    match ← t.place cwd true path with
    | .found p (.file _) => return p
    | .found _ .directory => throw .isDirectory
    | .found _ _ => throw .noEntry
    | .free p slash => if slash then throw .isDirectory else return p

/-- Makes one directory. -/
def makeDirectory (t : FileTree) (cwd : String) (path : String) : Except FileError FileTree :=
  onPath path do
    match ← t.place cwd false path with
    | .found _ _ => throw .entryExists
    | .free p _ => return t.insert p .directory

/-- A path cut before its last component; slashes at its end do not count. -/
def splitLast (path : String) : String × String :=
  let tail := Path.fileName path
  if tail.isEmpty then
    let head := Path.parent path
    (Path.parent head, Path.fileName head)
  else (Path.parent path, tail)

/-- Makes one directory unless it is there already. -/
def ensureDirectory (t : FileTree) (cwd : String) (path : String) : FileTree × Option FileError :=
  match t.makeDirectory cwd path with
  | .ok t' => (t', none)
  | .error e => (t, if t.hasDirectory cwd path then none else some e)

/-- Makes a directory and those above it that are missing; an existing directory is fine.
Directories made before a fault stay. The first argument bounds the number of directories by the
length of the path. -/
def makeDirectoriesFrom (cwd : String) : Nat → String → FileTree → FileTree × Option FileError
  | 0, _, t => (t, none)
  | n + 1, path, t =>
    let (head, tail) := splitLast path
    if !head.isEmpty && !tail.isEmpty && !t.hasEntry cwd head then
      let (t', fault) := makeDirectoriesFrom cwd n head t
      match fault.filter (·.fault != .entryExists) with
      | some e => (t', some e)
      | none => if tail == "." then (t', none) else t'.ensureDirectory cwd path
    else t.ensureDirectory cwd path

/-- Makes a directory and those above it that are missing. -/
def makeDirectories (t : FileTree) (cwd : String) (path : String) : FileTree × Option FileError :=
  makeDirectoriesFrom cwd (path.length + 1) path t

/-- Opens a file for writing after making the directories above it: the file is emptied, or made.
Gives its place. What was made before a fault stays. -/
def openFile (t : FileTree) (cwd : String) (path : String) :
    FileTree × Except FileError (List String) :=
  let dir := Path.parent path
  match t.makeDirectories cwd (if dir.isEmpty then "." else dir) with
  | (t', some e) => (t', .error e)
  | (t', none) =>
    match t'.placeToWrite cwd path with
    | .ok p => (t'.insert p (.file []), .ok p)
    | .error e => (t', .error e)

/-- Opens a file and puts bytes into it. -/
def store (t : FileTree) (cwd : String) (path : String) (bytes : List UInt8) :
    FileTree × Option FileError :=
  match t.openFile cwd path with
  | (opened, .ok p) => (opened.insert p (.file bytes), none)
  | (opened, .error e) => (opened, some e)

/-- Removes what stands at a path, and all below it. -/
def remove (t : FileTree) (cwd : String) (path : String) : Except FileError FileTree :=
  onPath path do
    match ← t.place cwd false path with
    | .found p _ => return t.erase p
    | .free _ _ => throw .noEntry

/-- Makes an entry at a free place. -/
def make (t : FileTree) (cwd : String) (path : String) (e : Entry) : Except FileError FileTree :=
  onPath path do
    match ← t.place cwd false path with
    | .found _ _ => throw .entryExists
    | .free p _ => return t.insert p e

/-- Everything below a directory, as paths from it. -/
def below (t : FileTree) (dir : List String) : List (List String × Entry) :=
  t.entries.filterMap fun (p, e) =>
    if dir.isPrefixOf p && dir.length < p.length then some (p.drop dir.length, e) else none

/-- A bound for the length of paths that lead to an entry: between two links, of which there are
only so many, a path goes down into existing directories. -/
def depthBound (t : FileTree) : Nat :=
  let longest := t.entries.foldl (fun n p => max n p.1.length) 0
  (linkLimit + 1) * (longest + 1) + 1

end FileTree

end ScriptModules
