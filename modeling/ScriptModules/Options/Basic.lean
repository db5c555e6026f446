import ScriptModules.Options.EdgeCase
import ScriptModules.Text.Utf8

/-!
# Options of a conversion

The inputs, the excluded files, the root of the output, the edge cases by base name, the banner and
the name of the global namespace.
-/

namespace ScriptModules

open Pattern (CharacterNames)

/-- The options of a conversion. -/
structure Options where
  inputs : List String
  excludes : List String
  output : String
  edgeCases : List (String × EdgeCase)
  banner : String
  namespaceName : String

namespace Options

/-- The edge case of a file. -/
def edgeCaseFor (o : Options) (baseName : String) : Option EdgeCase := o.edgeCases.lookup baseName

/-- Checks for a text or a list of texts. -/
def checkTexts (what : String) (v : Value) : Checked (List String) :=
  match v with
  | .str s => .ok [s]
  | v =>
    match v.items?.bind fun items => items.mapM Value.str? with
    | some texts => .ok texts
    | none => .issue (.value s!"Invalid {what} argument, expected a string or a list of strings")

/-- Checks a setting of texts that may be null. -/
def checkTextsOrNull (what : String) : Value → Checked (List String)
  | .null => .ok []
  | v => checkTexts what v

/-- Checks for a text that is not empty. -/
def checkName (v : Value) : Checked String :=
  match checkText v with
  | .ok s => if s.isEmpty then .issue .tooShort else .ok s
  | e => e

/-- Checks for a text, or for bytes that are one. -/
def checkTextOrBytes : Value → Checked String
  | .bytes bs =>
    match Text.decodeStrict bs with
    | .ok text => .ok (String.ofList text)
    | .error _ => .issue .notUnicode
  | v => checkText v

/-- Checks the key of an edge case. -/
def checkBaseName (k : Value) : Checked String :=
  (checkTextOrBytes k).under (.text "[key]")

/-- Puts an edge case under a name, in the place of an earlier one. -/
def putEdgeCase (cases : List (String × EdgeCase)) (pair : String × EdgeCase) :
    List (String × EdgeCase) :=
  if cases.any (·.1 == pair.1) then cases.map fun c => if c.1 == pair.1 then pair else c
  else cases ++ [pair]

/-- Checks one edge case with its key. -/
def checkEdgeCase (characters : CharacterNames) (pair : Value × Value) :
    Checked (String × EdgeCase) :=
  (Checked.apply ((checkBaseName pair.1).map Prod.mk) (EdgeCase.check characters pair.2)).under
    (.ofValue pair.1)

/-- Checks all edge cases. -/
def checkEdgeCases (characters : CharacterNames) : Value → Checked (List (String × EdgeCase))
  | .map pairs =>
    (Checked.all (checkEdgeCase characters) pairs).map fun cases => cases.foldl putEdgeCase []
  | _ => .issue .notMapping

/-- The field of the inputs. -/
def inputsField : Field := ⟨"inputs", none⟩
/-- The field of the excluded files. -/
def excludesField : Field := ⟨"excludes", none⟩
/-- The field of the root of the output. -/
def outputField : Field := ⟨"output", none⟩
/-- The field of the edge cases. -/
def edgeCasesField : Field := ⟨"edgeCases", some "edge_cases"⟩
/-- The field of the banner. -/
def bannerField : Field := ⟨"banner", none⟩
/-- The field of the global namespace. -/
def namespaceField : Field := ⟨"global", some "global_name"⟩

/-- All fields. -/
def fields : List Field :=
  [inputsField, excludesField, outputField, edgeCasesField, bannerField, namespaceField]

/-- Checks the entries of a mapping. -/
def checkPairs (characters : CharacterNames) (pairs : List (Value × Value)) : Checked Options :=
  let o : Checked _ := .ok Options.mk
  let o := o.apply (inputsField.checkRequired pairs (checkTexts "inputs"))
  let o := o.apply (excludesField.checkOr pairs [] (checkTextsOrNull "excludes"))
  let o := o.apply (outputField.checkRequired pairs checkText)
  let o := o.apply (edgeCasesField.checkOr pairs [] (checkEdgeCases characters))
  let o := o.apply (bannerField.checkOr pairs "" checkText)
  let o := o.apply (namespaceField.checkRequired pairs checkName)
  o.andThen (Field.checkKeys fields pairs)

/-- The name of the options in messages. -/
def modelName : String := "ConverterConfig"

/-- Checks the options of a conversion, with the names by which patterns may write characters. -/
def check (characters : CharacterNames) : Value → Checked Options
  | .map pairs => checkPairs characters pairs
  | _ => .issue (.notModel modelName)

end Options

end ScriptModules
