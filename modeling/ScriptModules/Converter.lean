import ScriptModules.Block.Basic
import ScriptModules.Discovery
import ScriptModules.Export.Resolve
import ScriptModules.Import.Resolve
import ScriptModules.Options.Basic
import ScriptModules.Rule.Build

/-!
# Conversion of a file tree

A conversion has two passes. The first reads every file, finds the exports of the scripts and
registers them. The second converts the scripts with the complete registry, copies all other files,
and stores both under the output root. A failure ends the conversion; what was stored before it
stays.
-/

namespace ScriptModules

/-- The records of the first pass by base name, in order of discovery. -/
abbrev FileMap := List (String × FileRecord)

/-- The outcome of a finished conversion. -/
structure Result where
  tally : Tally
  outputs : List String
  deriving DecidableEq, Repr

/-- What the first pass has found so far. -/
structure Scan where
  files : FileMap := []
  excluded : Nat := 0
  skipped : Nat := 0
  deriving DecidableEq, Repr

namespace Scan

/-- The record of a file. -/
def recordOf (o : Options) (cwd : String) (source : SourceFile) : Work FileRecord := do
  let edgeCase := o.edgeCaseFor source.baseName
  let outputPath ← Work.result (SourceFile.outputPath cwd source.path source.root o.output edgeCase)
  if source.isScript then
    let classification := classify o.namespaceName source.text
    let exports ← Work.noted
      (resolveExports o.namespaceName source.baseName edgeCase classification source.text)
    Work.tell (.scanned source.baseName classification.dialect exports)
    return { source, outputPath, classification, exports }
  else
    return { source, outputPath }

/-- Takes in one discovered file: an excluded one is passed over, and so is one whose base name is
taken. -/
def add (o : Options) (cwd : String) (t : FileTree) (s : Scan) (file : String × String) :
    Work Scan := do
  let (path, root) := file
  if isExcluded path o.excludes then
    Work.tell (.excluded path)
    return { s with excluded := s.excluded + 1 }
  let source ← Work.result ((SourceFile.read t cwd path root).mapError .file)
  if (s.files.lookup source.baseName).isSome then
    Work.tell (.duplicate source.baseName path)
    return { s with skipped := s.skipped + 1 }
  return { s with files := s.files ++ [(source.baseName, ← recordOf o cwd source)] }

/-- The result when the first pass is done: the files that it passed over and the registered names
are counted. -/
def result (s : Scan) (exportMap : ExportMap) : Result where
  tally := { excluded := s.excluded, skipped := s.skipped, registered := exportMap.length }
  outputs := []

/-- The first pass. -/
def run (o : Options) (cwd : String) (t : FileTree) : Work Scan := do
  let files ← Work.result (discover t cwd o.inputs)
  files.foldlM (add o cwd t) {}

end Scan

/-- The text of a converted script. -/
def convertScript (o : Options) (cwd : String) (exportMap : ExportMap) (r : FileRecord) :
    Work String := do
  let edgeCase := o.edgeCaseFor r.source.baseName
  let imports ← Work.noted (resolveImports o.namespaceName r.exports edgeCase r.source.text)
  let rules ← buildRules o.namespaceName r.exports edgeCase r.source.text
  let importText ← importBlock cwd r.outputPath exportMap imports
  let body ← Work.result (applyRules rules r.source.text)
  let exportText ← exportBlock r.outputPath r.exports
  return assemble o.banner importText body exportText

/-- What turns texts into bytes. A text may hold what no bytes stand for; the encoder refuses it in
its own words. -/
abbrev Encoder := String → Except String (List UInt8)

/-- The bytes of texts in UTF-8, which has some for every character. -/
def utf8 : Encoder := fun text => .ok (Text.encodeUtf8 text.toList)

/-- What is stored for a file: a text, which is encoded once the file is open, or bytes. -/
inductive Content where
  | text (text : String)
  | bytes (bytes : List UInt8)
  deriving DecidableEq, Repr

/-- The bytes of a text. -/
def encodeText (encode : Encoder) (text : String) : Except Failure (List UInt8) :=
  (encode text).mapError .unencodable

/-- The bytes that a content is written as. -/
def Content.encoded (encode : Encoder) : Content → Except Failure (List UInt8)
  | text s => encodeText encode s
  | bytes bs => return bs

/-- What is stored for a file. -/
def contentOf (encode : Encoder) (o : Options) (cwd : String) (exportMap : ExportMap)
    (r : FileRecord) :
    Work Content := do
  if r.source.isScript then
    return .text (← convertScript o cwd exportMap r)
  else
    return .bytes ((← Work.result (encodeText encode o.banner)) ++ r.source.raw)

namespace Result

/-- Counts a file as converted or copied. -/
def count (result : Result) (r : FileRecord) : Result :=
  if r.source.isScript then
    { result with tally := { result.tally with converted := result.tally.converted + 1 } }
  else
    { result with tally := { result.tally with copied := result.tally.copied + 1 } }

/-- Lists an output. -/
def addOutput (result : Result) (path : String) : Result :=
  { result with outputs := result.outputs ++ [path] }

end Result

/-- A file tree after some work on it, with the counts and outputs so far and the failure that ended
the work, if any. -/
structure Stored where
  tree : FileTree
  result : Result
  failure : Option Failure := none
  notices : List Notice := []

/-- Converts, counts and stores one file. It is open, and empty, before its text is encoded. -/
def storeRecord (encode : Encoder) (o : Options) (cwd : String) (exportMap : ExportMap)
    (t : FileTree) (result : Result) (r : FileRecord) : Stored :=
  let work := (contentOf encode o cwd exportMap r).run
  match work.value with
  | .error f => ⟨t, result, some f, work.notices⟩
  | .ok content =>
    let counted := result.count r
    match t.openFile cwd r.outputPath with
    | (opened, .error e) => ⟨opened, counted, some (.file e), work.notices⟩
    | (opened, .ok p) =>
      match content.encoded encode with
      | .error f => ⟨opened, counted, some f, work.notices⟩
      | .ok bytes =>
          ⟨opened.insert p (.file bytes), counted.addOutput r.outputPath, none, work.notices⟩

/-- The second pass: converts, counts and stores the files up to the first failure. -/
def storeAll (encode : Encoder) (o : Options) (cwd : String) (exportMap : ExportMap) :
    FileTree → Result → List FileRecord → Stored
  | t, result, [] => ⟨t, result, none, []⟩
  | t, result, r :: rest =>
    let first := storeRecord encode o cwd exportMap t result r
    match first.failure with
    | some _ => first
    | none =>
      let others := storeAll encode o cwd exportMap first.tree first.result rest
      { others with notices := first.notices ++ others.notices }

/-- A converter: its options, and what its last conversions left behind. The file map and the export
map belong to the last conversion whose first pass succeeded, the result to the last that succeeded
as a whole. -/
structure Converter where
  options : Options
  files : FileMap := []
  exportMap : ExportMap := []
  result : Option Result := none

/-- A converter and a file tree after a conversion. -/
structure Conversion where
  converter : Converter
  tree : FileTree
  failure : Option Failure := none
  notices : List Notice := []

namespace Converter

/-- Converts the inputs. -/
def convertWith (encode : Encoder) (c : Converter) (cwd : String) (t : FileTree) : Conversion :=
  let scan := (Scan.run c.options cwd t).run
  match scan.value with
  | .error f => ⟨c, t, some f, scan.notices⟩
  | .ok s =>
    let exportMap := ExportMap.build (s.files.map (·.2))
    let c := { c with files := s.files, exportMap := exportMap.value }
    let stored :=
      storeAll encode c.options cwd exportMap.value t (s.result exportMap.value) (s.files.map (·.2))
    let notices := scan.notices ++ exportMap.notices ++ stored.notices
    match stored.failure with
    | some f => ⟨c, stored.tree, some f, notices⟩
    | none =>
      ⟨{ c with result := some stored.result }, stored.tree, none,
        notices ++ [.complete stored.result.tally]⟩

/-- Converts the inputs to texts in UTF-8. -/
def convert (c : Converter) (cwd : String) (t : FileTree) : Conversion := convertWith utf8 c cwd t

/-- Converts the inputs and tells a listener, which keeps a state of its own, how the conversion
ended. -/
def convertTelling {σ : Type} (encode : Encoder) (c : Converter) (cwd : String) (t : FileTree)
    (listener : Option Failure → σ → σ) (state : σ) : Conversion × σ :=
  let conversion := c.convertWith encode cwd t
  (conversion, listener conversion.failure state)

end Converter

end ScriptModules
