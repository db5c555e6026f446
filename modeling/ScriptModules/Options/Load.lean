import ScriptModules.FileTree.Resolve
import ScriptModules.Notice
import ScriptModules.Options.Library

/-!
# Options from files

Options are kept in a file with a document. Paths of inputs and of the output root in the file are
seen from the directory of the file; settings from elsewhere take the place of those in the file and
are used as they are.
-/

namespace ScriptModules

/-- Why no options can be had from a file. -/
inductive LoadFault where
  | file (error : FileError)
  /-- The document in the file is not a mapping. -/
  | notMapping (path : String)
  /-- A path in the document leads nowhere. -/
  | unresolved (error : FileError)
  /-- The library raises an error. -/
  | raised (error : Raised)
  deriving DecidableEq, Repr

namespace LoadFault

/-- The fault in words. -/
def message : LoadFault → String
  | file error => error.message
  | notMapping path => s!"{path} must contain a mapping of options"
  | unresolved error =>
    match error.fault with
    | .linkLoop => s!"Symlink loop from {Text.quote error.path}"
    | _ => error.message
  | raised error => error.message

/-- The class of the error that the fault is. -/
def kind : LoadFault → ErrorClass
  | file error => if error.fault = .nullByte then .value else .file
  | notMapping _ => .value
  | unresolved error => if error.fault = .linkLoop then .other "RuntimeError" else .value
  | raised error => error.kind

/-- The fault is reported. -/
def isReported (f : LoadFault) : Bool := f.kind.isReported

end LoadFault

namespace Library

variable {V C : Type} (L : Library V C)

/-- The entries of the document in a file; nothing counts as no entries. -/
def entriesOf (path : String) (v : V) : Except LoadFault (List (V × V)) :=
  if L.isEmpty v then return []
  else
    match L.entries? v with
    | some pairs => return pairs
    | none => throw (.notMapping path)

/-- The entries of the document in a file. -/
def readEntries (t : FileTree) (cwd path : String) : Except LoadFault (List (V × V)) := do
  let bytes ← (t.readBytes cwd path).mapError .file
  let v ← (L.read bytes).mapError .raised
  L.entriesOf path v

/-- A path as seen from a directory; anything else stays. -/
def resolvePath (t : FileTree) (dir : List String) (v : V) : Except LoadFault V :=
  match L.text? v with
  | some s => do return L.ofText (← (t.resolve? dir s).mapError .unresolved)
  | none => return v

/-- The inputs as seen from a directory; a single one becomes a list. -/
def resolveInputs (t : FileTree) (dir : List String) (v : V) : Except LoadFault V :=
  match L.text? v, L.list? v with
  | some _, _ => do return L.ofList [← L.resolvePath t dir v]
  | none, some items => do return L.ofList (← items.mapM (L.resolvePath t dir))
  | none, none => return v

/-- Changes the entry under a text, if there is one. -/
def modifyEntry (key : String) (f : V → Except LoadFault V) (pairs : List (V × V)) :
    Except LoadFault (List (V × V)) :=
  match L.entry? key pairs with
  | none => return pairs
  | some v => do return L.setEntry key (← f v) pairs

/-- Settings by the keys of their fields. One that gives nothing is as good as none. -/
abbrev Settings (V : Type) := List (String × Option V)

/-- Puts settings in the place of entries. -/
def override (settings : Settings V) (pairs : List (V × V)) : List (V × V) :=
  settings.foldl (fun ps (key, v) => match v with
    | none => ps
    | some v => L.setEntry key v ps) pairs

/-- The entries of a file with its paths resolved and settings in the place of entries. -/
def gather (t : FileTree) (cwd path : String) (settings : Settings V) :
    Except LoadFault (List (V × V)) := do
  let pairs ← L.readEntries t cwd (Path.tidy path)
  let dir := (Path.parts (t.resolve (Path.parts cwd) path)).dropLast
  let pairs ← L.modifyEntry "inputs" (L.resolveInputs t dir) pairs
  let pairs ← L.modifyEntry "output" (L.resolvePath t dir) pairs
  return L.override settings pairs

/-- Loads the options from a file, with settings in the place of its entries. -/
def load (t : FileTree) (cwd path : String) (settings : Settings V) :
    Noted (Except LoadFault C) :=
  match L.gather t cwd path settings with
  | .error e => pure (.error e)
  | .ok pairs => do
    Noted.tell (.configLoaded (Path.tidy path))
    return (L.validate pairs).mapError .raised

end Library

end ScriptModules
