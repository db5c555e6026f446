import ScriptModules.Dialect.Signature
import ScriptModules.EdgeCase
import ScriptModules.Failure

/-!
# The rules for a script

The rules that turn the body of a script into the body of a module, in order: module statements are
removed, assignments to members of the namespace become declarations, a wrapper around the whole
script is taken off, the namespace in front of its members is dropped, and declarations of a name by
itself are removed.
-/

namespace ScriptModules

open Pattern Pattern.Node

namespace Rule

/-- The rules that remove module statements. -/
def moduleStatements : List Rule := [
  removing Statement.importLine,
  replacing (Statement.exported (word "var")) "var",
  replacing (Statement.exported (word "function")) "function",
  ⟨Statement.exported (.group 1 (choice [word "let", word "const", word "class"])),
    .ok [.group 1], 0⟩,
  removing Statement.exportList]

/-- The template that declares a name. The name stands in it as written, so a backslash in it counts
as part of the template. -/
def declaring (name : String) : Except Problem Template :=
  Template.parse ⟨.empty, 0, []⟩ ("var " ++ name ++ " =").toList

/-- An assignment to a member of the namespace, but not a comparison with it. -/
def assignment (namespaceName name : String) : Node := sequence [
  Signature.member namespaceName, word name, blanks, char '=', .look .ahead true (char '=')]

/-- The rules that turn assignments to the exported members into declarations, once in a chain. -/
def declarations (namespaceName : String) (exports : List Export) : List Rule :=
  exports.filterMap Export.plain? |>.flatMap fun name => [
    ⟨assignment namespaceName name, declaring name, 0⟩,
    replacing (word " = var ") " = "]

/-- The head of a wrapper. -/
def wrapperOpener : Node := sequence [
  char '(', blanks, word "function", blanks, char '(', blanks,
    optional (.group 1 identifier), blanks,
  char ')', blanks, char '\x7b']

/-- The head of a wrapper at the start of a text without blanks. -/
def bareOpener : Node := sequence [
  .anchor .start, word "(function(", optional (.group 1 identifier), word ")\x7b"]

/-- An optional semicolon and blanks up to the end. -/
def ending : Node := sequence [blanks, optional (char ';'), blanks, .anchor .finish]

/-- The ways in which a wrapper may end. -/
inductive Closer where
  /-- The function is closed before it is called, perhaps with an argument. -/
  | outside
  /-- The function is called inside the parentheses. -/
  | inside
  deriving DecidableEq, Repr

namespace Closer

/-- The pattern of an end. -/
def pattern : Closer → Node
  | outside => sequence [
      char '\x7d', blanks, char ')', blanks, char '(', blanks,
      many
      (.set
      ⟨[.kind .word .unicode false, .char '$', .char '.', .char '=', .kind .blank .unicode false],
        false, .exact⟩),
      optional (sequence [word "||", blanks, word "\x7b\x7d"]), blanks, char ')', ending]
  | inside => sequence [
      char '\x7d', blanks, char '(', blanks, many (.set .ident), blanks, char ')', blanks,
      char ')', ending]

/-- The way in which reports show an end. -/
def report : Closer → String
  | outside =>
    "\\\x7d\\s*\\)\\s*\\(\\s*[\\w$.=\\s]*(?:\\|\\|\\s*\\\x7b\\\x7d)?\\s*\\)\\s*;?\\s*$"
  | inside => "\\\x7d\\s*\\(\\s*[\\w$]*\\s*\\)\\s*\\)\\s*;?\\s*$"

end Closer

/-- How the wrapper around a script ends, if the script has a wrapper. -/
def closerOf (text : List Char) : Except Failure (Option Closer) :=
  let bare := gap.remove text
  if (bareOpener.matchStart bare).isNone then return none
  else if Closer.outside.pattern.occursIn bare then return some .outside
  else if Closer.inside.pattern.occursIn bare then return some .inside
  else throw .openWrapper

/-- The rules that take a wrapper off. -/
def unwrapping (closer : Closer) : List Rule := [
  (removing wrapperOpener).onlyFirst,
  (replacing closer.pattern "\n").onlyFirst]

/-- The rules that drop the namespace. Its member `Math` gets a name that differs from the built-in
one. -/
def namespaceDropping (namespaceName : String) : List Rule := [
  replacing (sequence [Signature.member namespaceName, word "Math."]) "_Math.",
  removing (Signature.member namespaceName)]

/-- One blank or none. -/
def maybeBlank : Node := optional (.set .blank)

/-- A declaration of a name by itself. -/
def selfDeclaration : Node := sequence [
  wordEdge, word "var", maybeBlank, .group 1 identifier, maybeBlank, char '=', maybeBlank,
  .backref 1 .exact, char ';']

/-- The rules that remove declarations of a name by itself. -/
def selfDeclarations : List Rule := [removing selfDeclaration]

/-- The rules of a script without settings of its own, given how its wrapper ends. -/
def standard (namespaceName : String) (exports : List Export) (closer : Option Closer) :
    List Rule :=
  moduleStatements ++ declarations namespaceName exports ++ (closer.map unwrapping).getD [] ++
    namespaceDropping namespaceName ++ selfDeclarations

end Rule

/-- The rules for a script, in order. -/
def buildRules (namespaceName : String) (exports : List Export) (edgeCase : Option EdgeCase)
    (text : String) : Work (List Rule) := do
  match edgeCase.bind (·.replacementsOverride) with
  | some rules => return rules.map (·.rule)
  | none =>
    let closer ← Work.result (Rule.closerOf text.toList)
    if let some c := closer then
      Work.tell (.unwrapping c.report)
    return Rule.standard namespaceName exports closer ++
      (edgeCase.map (·.replacements.map (·.rule))).getD []

/-- The text after all rules. -/
def applyRules (rules : List Rule) (text : String) : Except Failure String :=
  match Rule.applyAll rules text.toList with
  | .ok result => return String.ofList result
  | .error problem => throw (.rule problem)

end ScriptModules
