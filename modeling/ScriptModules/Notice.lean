import ScriptModules.Dialect.Basic
import ScriptModules.Export.Basic
import ScriptModules.Text.Quoted

/-!
# Notices

What the conversion reports while it works. Every notice has a level, the part of the program that
gives it, and a text.
-/

namespace ScriptModules

/-- The levels of notices. -/
inductive Level where
  | debug
  | info
  | warning
  | error
  deriving DecidableEq, Repr

namespace Level

/-- The name of a level. -/
def name : Level → String
  | debug => "DEBUG"
  | info => "INFO"
  | warning => "WARNING"
  | error => "ERROR"

/-- All levels, the least urgent first. -/
def all : List Level := [debug, info, warning, error]

/-- The urgency of a level. -/
def rank : Level → Nat
  | debug => 10
  | info => 20
  | warning => 30
  | error => 40

/-- The level of a name. -/
def ofName? (s : String) : Option Level := all.find? (·.name == s)

end Level

/-- Counts of a finished conversion. -/
structure Tally where
  converted : Nat := 0
  copied : Nat := 0
  excluded : Nat := 0
  skipped : Nat := 0
  registered : Nat := 0
  deriving DecidableEq, Repr

/-- Something to report. -/
inductive Notice where
  | amdModule (baseName : String)
  | noExports (baseName : String)
  | notASymbol (baseName word : String)
  | badProperty (item baseName : String)
  | badExportItem (item baseName : String)
  | fallback (baseName : String) (dialect : Dialect)
  | selfReference (item : String)
  | unwrapping (closer : String)
  | alreadyExported (name file owner : String)
  | exportMapBuilt (size : Nat)
  | missingExport (item importer : String)
  | noExportBlock (file : String)
  | configLoaded (path : String)
  | excluded (path : String)
  | duplicate (baseName path : String)
  | scanned (baseName : String) (dialect : Dialect) (exports : List Export)
  | complete (tally : Tally)
  | invalidConfig (path message : String)
  | failed (message : String)
  | done (tally : Tally) (output : String)
  deriving DecidableEq, Repr

namespace Notice

/-- How urgent a notice is. -/
def level : Notice → Level
  | amdModule _ | noExports _ | alreadyExported _ _ _ | missingExport _ _ | noExportBlock _
  | duplicate _ _ => .warning
  | notASymbol _ _ | badProperty _ _ | badExportItem _ _ | fallback _ _ | selfReference _
  | unwrapping _ | configLoaded _ | excluded _ | scanned _ _ _ => .debug
  | exportMapBuilt _ | complete _ | done _ _ => .info
  | invalidConfig _ _ | failed _ => .error

/-- The part of the program that gives a notice, as reports name it. -/
def origin : Notice → String
  | amdModule _ => "jstoes.core.dialects.amd_resolver"
  | noExports _ => "jstoes.core.dialects.base"
  | notASymbol _ _ | badProperty _ _ => "jstoes.core.dialects.cjs_resolver"
  | badExportItem _ _ => "jstoes.core.dialects.es6_resolver"
  | fallback _ _ => "jstoes.core.dialects.fallback_resolver"
  | selfReference _ => "jstoes.core.imports"
  | unwrapping _ => "jstoes.core.rewrite"
  | alreadyExported _ _ _ | exportMapBuilt _ => "jstoes.core.export_map"
  | missingExport _ _ | noExportBlock _ => "jstoes.core.output"
  | configLoaded _ => "jstoes.core.config"
  | excluded _ | duplicate _ _ | scanned _ _ _ | complete _ => "jstoes.core.converter"
  | invalidConfig _ _ | failed _ | done _ _ => "jstoes.__main__"

/-- The text of a notice. -/
def message : Notice → String
  | amdModule baseName =>
    s!"{baseName} is an AMD module and cannot be converted automatically, " ++
      "declare its exports with an edge case"
  | noExports baseName =>
    s!"{baseName} does not contain explicit or implicit exports, " ++
      "falling back to file name as export"
  | notASymbol baseName word => s!"module.exports in {baseName} is not a named symbol ({word})"
  | badProperty item baseName =>
    s!"Skipping unparsable module.exports property {Text.quote item} in {baseName}"
  | badExportItem item baseName =>
    s!"Skipping unparsable export item {Text.quote item} in {baseName}"
  | fallback baseName dialect => s!"{baseName} classified as {dialect.name}, exporting base name"
  | selfReference item => s!"Ignoring self reference to {item}"
  | unwrapping closer => s!"Unwrapping self-invoking wrapper (closer: {closer})"
  | alreadyExported name file owner =>
    s!"Element \"{name}\" in {file} is already exported by {owner}, keeping the first exporter"
  | exportMapBuilt size => s!"Export map built: {size} symbols"
  | missingExport item importer =>
    s!"Missing export statement for {item} imported by {importer}, " ++
      "this edge case will probably need to be managed manually"
  | noExportBlock file =>
    s!"{file} does not contain explicit or implicit exports, no export block emitted"
  | configLoaded path => s!"Loaded config from {path}"
  | excluded path => s!"Excluded {path}"
  | duplicate baseName path =>
    s!"The file {baseName} already exists in the file map, skipping duplicate {path}"
  | scanned baseName dialect exports =>
    s!"{baseName}: {dialect.name}, exports {Export.reportList exports}"
  | complete t =>
    s!"Conversion complete: {t.converted} converted, {t.copied} copied, {t.excluded} excluded, " ++
      s!"{t.skipped} duplicates skipped, {t.registered} exports in 0.00s"
  | invalidConfig path message => s!"Invalid configuration {path}: {message}"
  | failed message => s!"Conversion failed: {message}"
  | done t output =>
    s!"Done: {t.converted} converted, {t.copied} copied, {t.skipped} skipped, " ++
      s!"{t.registered} exports registered -> {output}"

/-- The notice is at least as urgent as a level. -/
def atLeast (n : Notice) (l : Level) : Bool := l.rank ≤ n.level.rank

end Notice

/-- A value with the notices given while it was computed, in order. -/
structure Noted (α : Type) where
  value : α
  notices : List Notice := []

namespace Noted

instance : Monad Noted where
  pure a := ⟨a, []⟩
  bind x f :=
    let y := f x.value
    ⟨y.value, x.notices ++ y.notices⟩

/-- Gives a notice. -/
def tell (n : Notice) : Noted Unit := ⟨(), [n]⟩

end Noted

end ScriptModules
