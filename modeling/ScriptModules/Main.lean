import ScriptModules.CommandLine.Run

/-!
# The program

Takes the part of the disk that a run can touch into a file tree, runs on it, and puts the changes
back.
-/

namespace ScriptModules.Disk

/-- A path as seen from the current directory. -/
def locate (path : String) := do
  return (← IO.currentDir) / path

/-- The entry at a path of the disk, without what is below it. -/
def entryAt? (path : String) : IO (Option Entry) := do
  let p ← locate path
  match ← p.symlinkMetadata.toBaseIO with
  | .error _ => return none
  | .ok data =>
    match data.type with
    | .dir => return some .directory
    | .file => return some (.file (← IO.FS.readBinFile p).toList)
    | .symlink =>
      match ← (IO.FS.realPath p).toBaseIO with
      | .error _ => return some (.link path)
      | .ok target => return some (.link target.toString)
    | .other => return some .pipe

/-- Takes in what stands at a path from the root, and all below it. -/
partial def capture (t : FileTree) (path : String) : IO FileTree := do
  let parts := Path.parts path
  if !parts.isEmpty && (t.get? parts).isSome then return t
  match ← entryAt? path with
  | none => return t
  | some .directory =>
    let entries ← (← locate path).readDir
    entries.foldlM (fun t e => capture t e.path.toString) (t.insert parts .directory)
  | some (.link target) => capture (t.insert parts (.link target)) target
  | some e => return t.insert parts e

/-- Takes in the entries above a path from the root, and what stands there with all below it. -/
def captureFrom (t : FileTree) (path : String) : IO FileTree := do
  let parts := Path.parts path
  let above := (List.range parts.length).map fun n => parts.take n
  let t ← above.foldlM (fun (t : FileTree) dir => do
    if dir.isEmpty || (t.get? dir).isSome then return t
    match ← entryAt? ("/" ++ Path.joinComponents dir) with
    | some .directory => return t.insert dir .directory
    | some (.link target) => capture (t.insert dir (.link target)) target
    | _ => return t) t
  capture t path

/-- Takes in the options file, the inputs and the output root of a run. -/
def captureRun (a : CommandLine.Arguments) (cwd : String) : IO FileTree := do
  let t ← captureFrom {} (Path.absolute cwd a.config)
  match (Library.usual.load t cwd a.config (a.settings .usual)).value with
  | .error _ => return t
  | .ok o => (o.output :: o.inputs).foldlM (fun t p => captureFrom t (Path.absolute cwd p)) t

/-- Puts the entries that a run has changed on the disk, directories before what is in them. -/
def store (before after : FileTree) : IO Unit := do
  let changed := after.entries.filter fun p => before.get? p.1 != some p.2
  for (parts, e) in changed.mergeSort fun a b => a.1.length ≤ b.1.length do
    let p ← locate ("/" ++ Path.joinComponents parts)
    match e with
    | .directory => IO.FS.createDirAll p
    | .file bytes => IO.FS.writeBinFile p bytes.toByteArray
    | _ => pure ()

/-- What the program says when it is asked for help. -/
def helpText : String := "\n".intercalate
  ["usage: jstoes [-h] [--inputs INPUTS [INPUTS ...]] [--output OUTPUT] [--global GLOBAL_NAME]",
    "              [--banner BANNER] [--log-level \x7bDEBUG,INFO,WARNING,ERROR\x7d]",
    "              config"]

end ScriptModules.Disk

open ScriptModules in
/-- Runs the program on the disk. -/
def main (args : List String) : IO UInt32 := do
  let cwd := (← IO.currentDir).toString
  let request := CommandLine.Request.parse args
  if let .ok .help := request then IO.println Disk.helpText
  let before ← match request with
    | .ok (.convert a) => Disk.captureRun a cwd
    | _ => pure {}
  let run := CommandLine.run .usual utf8 args cwd before
  Disk.store before run.tree
  for line in run.lines do IO.eprintln line
  match run.ending with
  | .exit code => return code.toUInt32
  | .broken fault =>
    IO.eprintln fault.message
    return 1
