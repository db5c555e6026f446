import ScriptModules.FileTree.Basic
import ScriptModules.Notice
import ScriptModules.Pattern.Problem

/-!
# Failures

What ends a conversion, and computations that may fail and give notices on the way. Notices that
were given before a failure stay.
-/

namespace ScriptModules

/-- Why a conversion cannot go on. -/
inductive Failure where
  /-- The template of a rule cannot be read. -/
  | rule (problem : Pattern.Problem)
  /-- A wrapper opens and no known end of one follows. -/
  | openWrapper
  /-- A file without a directory in its path cannot be reached from another. -/
  | noPath
  /-- An entry neither passes a name on nor gives it a new one. -/
  | unknownAction (word : String)
  /-- An input does not exist. -/
  | missingInput (path : String)
  /-- An entry is neither a file nor a directory. -/
  | oddEntry (path : String)
  | file (error : FileError)
  /-- A text holds what no bytes stand for, in the words of the encoder. -/
  | unencodable (message : String)
  deriving DecidableEq, Repr

/-- The failure in words. -/
def Failure.message : Failure → String
  | rule problem => problem.message
  | openWrapper =>
    "Unable to match the end of the self-invoking wrapper, this file needs a replacements edge case"
  | noPath => "no path specified"
  | unknownAction word => s!"Invalid export action: {Text.quote word}"
  | missingInput path => s!"Invalid file path \"{path}\"."
  | oddEntry path => s!"\"{path}\" is neither a file nor a directory."
  | file error => error.message
  | unencodable message => message

/-- A computation that may fail and gives notices. -/
abbrev Work := ExceptT Failure Noted

namespace Work

/-- Gives a notice. -/
def tell (n : Notice) : Work Unit := ExceptT.lift (Noted.tell n)

/-- A computation that gives notices and does not fail. -/
def noted {α : Type} (x : Noted α) : Work α := ExceptT.lift x

/-- A result that may be a failure. -/
def result {α : Type} (x : Except Failure α) : Work α := ExceptT.mk (pure x)

end Work

end ScriptModules
