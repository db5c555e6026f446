import ScriptModules.Script.Statement

/-!
# Signatures

The patterns by which dialects and uses of names show in a script. Most depend on the name of the
legacy global namespace: its members are written with the name and a dot in front, where no
identifier character stands before.
-/

namespace ScriptModules.Signature

open Pattern Pattern.Node

/-- A statement of a module: a declared export, a list in braces, or a default import. -/
def es6 : Node := sequence [
  Statement.standalone,
  choice [
    sequence [word "export", gap,
      choice [word "default", word "var", word "let", word "const", word "function", word "class"],
      wordEdge],
    sequence [choice [word "import", word "export"], blanks, optional (word "default"), blanks,
      char '\x7b',
      oneOrMore (.set ⟨[.kind .word .unicode false, .kind .blank .unicode false, .char ','],
        false, .exact⟩),
      char '\x7d', blanks, optional (word "from")],
    sequence [word "import", gap, identifier, gap, word "from", .set .blank]]]

/-- The guard of an asynchronous module definition. -/
def amd : Node := word "define.amd"

/-- An assignment of a module's exports: an object as group 1, or a name as group 2. -/
def cjs : Node := sequence [
  word "module.exports", blanks, char '=', blanks,
  choice [
    Statement.braceList,
    .group 2 identifier]]

/-- The head of a wrapper that tells module systems apart. -/
def umd : Node := sequence [
  char '(', blanks, word "function", blanks, char '(', blanks, word "root", blanks,
    char ',', blanks,
  word "factory", blanks, char ')', blanks, char '\x7b']

/-- The namespace with its dot. -/
def member (namespaceName : String) : Node := sequence [notAfterIdent, word namespaceName, char '.']

/-- One target of an assignment chain, with its equals sign. -/
def link (namespaceName : String) : Node := sequence [
  member namespaceName, identifier, blanks, char '=', blanks]

/-- A chain of assignments of a function to members of the namespace. -/
def classic (namespaceName : String) : Node := sequence [
  oneOrMore (link namespaceName), word "function", wordEdge]

/-- The assignment of a constructor to a prototype; its name is group 1. -/
def prototype (namespaceName : String) : Node := sequence [
  word "prototype.constructor", blanks, char '=', blanks, optional (member namespaceName),
  .group 1 identifier]

/-- The assignment of an object to a member of the namespace; the member is group 1. -/
def library (namespaceName : String) : Node := sequence [
  member namespaceName, .group 1 identifier, blanks, char '=', blanks, char '\x7b']

/-- A target of an assignment to a member of the namespace, the member as group 1. -/
def target (namespaceName : String) : Node := sequence [
  member namespaceName, .group 1 identifier, blanks, char '=']

/-- A prototype of the name in group 1. -/
def prototypeOf (namespaceName : String) : Node := sequence [
  optional (member namespaceName), .group 1 identifier, word ".prototype"]

/-- A merge of two or more prototypes. -/
def merge (namespaceName : String) : Node := sequence [
  word "Object.assign(", blanks,
  .loop .greedy 2 none (sequence [
    prototypeOf namespaceName, blanks, optional (char ','), blanks])]

/-- The creation of an object from the prototype of the name in group 1. -/
def inheritance (namespaceName : String) : Node := sequence [
  word "Object.create(", blanks, prototypeOf namespaceName, blanks, char ')']

/-- A keyword before the member of the namespace in group 1. -/
def keywordMember (keyword namespaceName : String) : Node := sequence [
  wordEdge, word keyword, gap, member namespaceName, .group 1 identifier]

end ScriptModules.Signature
