import ScriptModules.CommandLine.Arguments
import ScriptModules.Converter
import ScriptModules.Options.Load

/-!
# Runs of the program

A run reads its command line, loads the options and converts the inputs. It reports one line for
every notice that is urgent enough, and ends with a number that says whether all went well.
-/

namespace ScriptModules.CommandLine

/-- How a run ends. -/
inductive Ending where
  | exit (code : Nat)
  /-- The options cannot be read at all; the error breaks the run off. -/
  | broken (fault : LoadFault)
  deriving DecidableEq, Repr

/-- A run: its end, the lines it reports, and the file tree it leaves. -/
structure Run where
  ending : Ending
  lines : List String := []
  tree : FileTree

/-- The text up to the end of its first line. -/
def firstLine (s : String) : String := String.ofList (s.toList.takeWhile (· != '\n'))

/-- The line that reports a notice. -/
def reportLine (n : Notice) : String := s!"{n.origin} - {n.level.name} - {firstLine n.message}"

/-- The lines for the notices that are urgent enough. -/
def reportLines (least : Level) (notices : List Notice) : List String :=
  (notices.filter (·.atLeast least)).map reportLine

/-- The name of the program. -/
def programName : String := "jstoes"

/-- The line that reports a fault of the command line. -/
def usageLine (f : UsageFault) : String := s!"{programName}: error: {f.message}"

section Library

variable {V : Type} (L : Library V Options) (encode : Encoder)

/-- The settings of a command line that take the place of those in the options file. -/
def Arguments.settings (a : Arguments) : Library.Settings V :=
  [("inputs", a.inputs.map fun paths => L.ofList (paths.map L.ofText)),
    ("output", a.output.map L.ofText), ("global", a.namespaceName.map L.ofText),
    ("banner", a.banner.map L.ofText)]

/-- Converts with loaded options; the notices come after those given before. -/
def convertWith (a : Arguments) (cwd : String) (t : FileTree) (before : List Notice) (o : Options) :
    Run :=
  let c := Converter.convertWith encode { options := o } cwd t
  let last : Notice × Nat :=
    match c.failure, c.converter.result with
    | some f, _ => (.failed f.message, 1)
    | none, r => (.done ((r.map (·.tally)).getD {}) o.output, 0)
  { ending := .exit last.2
    lines := reportLines a.logLevel (before ++ c.notices ++ [last.1])
    tree := c.tree }

/-- Loads the options and converts. -/
def convert (a : Arguments) (cwd : String) (t : FileTree) : Run :=
  let loaded := L.load t cwd a.config (a.settings L)
  match loaded.value with
  | .ok o => convertWith encode a cwd t loaded.notices o
  | .error f =>
    if f.isReported then
      let notices := loaded.notices ++ [.invalidConfig a.config f.message]
      { ending := .exit 1, lines := reportLines a.logLevel notices, tree := t }
    else { ending := .broken f, lines := reportLines a.logLevel loaded.notices, tree := t }

/-- Runs the program. -/
def run (args : List String) (cwd : String) (t : FileTree) : Run :=
  match Request.parse args with
  | .error f => { ending := .exit 2, lines := [usageLine f], tree := t }
  | .ok .help => { ending := .exit 0, tree := t }
  | .ok (.convert a) => convert L encode a cwd t

end Library

end ScriptModules.CommandLine
