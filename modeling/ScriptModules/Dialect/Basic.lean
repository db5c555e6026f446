/-!
# Dialects

The ways in which a script shares its names with others.
-/

namespace ScriptModules

/-- The structural category of a script. -/
inductive Dialect where
  | es6
  | amd
  | cjs
  | classic
  | prototype
  | library
  | umd
  | unknown
  deriving DecidableEq, Repr

namespace Dialect

/-- The name under which reports show a dialect. -/
def name : Dialect → String
  | es6 => "Es6"
  | amd => "AMD"
  | cjs => "CJS"
  | classic => "Classic"
  | prototype => "Prototype"
  | library => "Library"
  | umd => "UMD"
  | unknown => "Unknown"

/-- All dialects, in the order in which they are tried. -/
def all : List Dialect := [es6, amd, cjs, classic, prototype, library, umd, unknown]

/-- The dialect of a name. -/
def ofName? (s : String) : Option Dialect := all.find? (·.name == s)

end Dialect

/-- A dialect with the texts that its signature matched. -/
structure Classification where
  dialect : Dialect
  found : List String := []
  deriving DecidableEq, Repr

end ScriptModules
