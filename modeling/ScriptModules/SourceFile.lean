import ScriptModules.Dialect.Basic
import ScriptModules.EdgeCase
import ScriptModules.Failure
import ScriptModules.Script.Segment
import ScriptModules.Text.Utf8

/-!
# Source files

A discovered file, read once. A script keeps its text without comments; any other file keeps its
bytes.
-/

namespace ScriptModules

/-- A file that was read. -/
structure SourceFile where
  path : String
  /-- The input under which the file was found. -/
  root : String
  text : String
  baseName : String
  extension : String
  raw : List UInt8
  deriving DecidableEq, Repr

/-- The extension of scripts. -/
def scriptExtension : String := ".js"

namespace SourceFile

/-- The file is a script. -/
def isScript (f : SourceFile) : Bool := f.extension == scriptExtension

/-- The text of a script that was stored as bytes. -/
def scriptText (bytes : List UInt8) : String :=
  String.ofList (Script.withoutComments (Text.unifyNewlines (Text.decodeLossy bytes)))

/-- Reads a file. -/
def read (t : FileTree) (cwd : String) (path root : String) : Except FileError SourceFile := do
  let (baseName, extension) := Path.splitExtension (Path.fileName path)
  let bytes ← t.readBytes cwd (Path.tidy path)
  if extension == scriptExtension then
    return { path, root, text := scriptText bytes, baseName, extension, raw := [] }
  else
    return { path, root, text := "", baseName, extension, raw := bytes }

/-- The path of a file from its input; an input that is the file itself gives the file name. -/
def relativePath (cwd path root : String) : Except Failure String :=
  if path = root then return Path.fileName path
  else match Path.relative? cwd path root with
    | some p => return p
    | none => throw .noPath

/-- The path at which the converted file is stored. -/
def outputPath (cwd path root outputRoot : String) (edgeCase : Option EdgeCase) :
    Except Failure String := do
  match edgeCase.bind (·.outputOverride) with
  | some p => return Path.join outputRoot p
  | none => return Path.join outputRoot (← relativePath cwd path root)

end SourceFile

/-- What the first pass learns of a file. -/
structure FileRecord where
  source : SourceFile
  outputPath : String
  classification : Classification := ⟨.unknown, []⟩
  exports : List Export := []
  deriving DecidableEq, Repr

end ScriptModules
