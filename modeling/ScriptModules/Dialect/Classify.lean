import ScriptModules.Dialect.Basic
import ScriptModules.Dialect.Signature

/-!
# Classification

A script belongs to the first dialect whose signature occurs in it, in the order of `Dialect.all`.
-/

namespace ScriptModules

/-- A classification that records what was found, unless nothing was. -/
def Classification.ofFound (dialect : Dialect) (found : List (List Char)) : Option Classification :=
  if found.isEmpty then none else some ⟨dialect, found.map String.ofList⟩

/-- A classification that records nothing. -/
def Classification.ofOccurrence (dialect : Dialect) (occurs : Bool) : Option Classification :=
  if occurs then some ⟨dialect, []⟩ else none

/-- The classification of a script as one dialect, if its signature occurs. -/
def recognize (namespaceName : String) (text : List Char) : Dialect → Option Classification
  | .es6 => Classification.ofOccurrence .es6 (Signature.es6.occursIn text)
  | .amd => Classification.ofOccurrence .amd (Signature.amd.occursIn text)
  | .cjs => Classification.ofFound .cjs (Signature.cjs.groupTexts 0 text)
  | .classic =>
      Classification.ofFound .classic ((Signature.classic namespaceName).groupTexts 0 text)
  | .prototype =>
      Classification.ofFound .prototype ((Signature.prototype namespaceName).groupTexts 1 text)
  | .library =>
      Classification.ofFound .library ((Signature.library namespaceName).groupTexts 1 text)
  | .umd => Classification.ofOccurrence .umd (Signature.umd.occursIn text)
  | .unknown => some ⟨.unknown, []⟩

/-- The classification of a script. -/
def classify (namespaceName : String) (text : String) : Classification :=
  (Dialect.all.findSome? (recognize namespaceName text.toList)).getD ⟨.unknown, []⟩

end ScriptModules
