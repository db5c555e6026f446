import ScriptModules.Options.Basic
import ScriptModules.Text.CharacterName
import ScriptModules.Yaml.Document

/-!
# Libraries

The program takes two things from elsewhere: a reader of documents and a check of options. A library
brings both, with the kind of values that its documents hold and the kind of options that it
accepts. It raises errors of its own, which the program tells apart by their class alone.
-/

namespace ScriptModules

/-- The classes of errors. -/
inductive ErrorClass where
  /-- A file cannot be used. -/
  | file
  /-- A value is not one of those that are expected. -/
  | value
  /-- Bytes are not text; this is a class below the one of values. -/
  | decoding
  /-- Options are refused. -/
  | refusal
  /-- A document is not written as one. -/
  | document
  /-- A number is too large for its use. -/
  | overflow
  /-- Any other class, by its name. -/
  | other (name : String)
  deriving DecidableEq, Repr

namespace ErrorClass

/-- The name of a class. -/
def name : ErrorClass → String
  | file => "OSError"
  | value => "ValueError"
  | decoding => "UnicodeDecodeError"
  | refusal => "ValidationError"
  | document => "YAMLError"
  | overflow => "OverflowError"
  | other name => name

/-- The program reports errors of these classes; those of all others break it off. -/
def reported : List ErrorClass := [file, value, decoding, refusal]

/-- Errors of the class are reported. -/
def isReported (c : ErrorClass) : Bool := reported.contains c

end ErrorClass

/-- An error that a library raises. One that refuses options lists what is wrong with them. -/
structure Raised where
  kind : ErrorClass
  message : String
  issues : List Issue := []
  deriving DecidableEq, Repr

/-- A reader of documents and a check of options. Of the values in documents the program asks
whether they are nothing, texts, lists or mappings, and it makes texts and lists. -/
structure Library (V C : Type) where
  /-- Reads the document in the bytes of a file. -/
  read : List UInt8 → Except Raised V
  /-- Checks the entries of a mapping as options. -/
  validate : List (V × V) → Except Raised C
  /-- The value counts as nothing. -/
  isEmpty : V → Bool
  /-- The text, if the value is one. -/
  text? : V → Option String
  /-- The items, if the value is a list. -/
  list? : V → Option (List V)
  /-- The entries, if the value is a mapping. -/
  entries? : V → Option (List (V × V))
  ofText : String → V
  ofList : List V → V
  text?_ofText : ∀ s, text? (ofText s) = some s

namespace Library

variable {V C : Type}

/-- The entry of a mapping under a text. -/
def entry? (L : Library V C) (key : String) (pairs : List (V × V)) : Option V :=
  Entries.find? L.text? key pairs

/-- Puts an entry under a text, in the place of an earlier one. -/
def setEntry (L : Library V C) (key : String) (v : V) (pairs : List (V × V)) : List (V × V) :=
  Entries.put L.text? L.ofText key v pairs

/-- The entry put under a text is found there, and no other entry has changed. -/
theorem entry?_setEntry (L : Library V C) (key other : String) (v : V) (pairs : List (V × V)) :
    L.entry? other (L.setEntry key v pairs) =
      if other = key then some v else L.entry? other pairs :=
  Entries.find?_put key other v pairs (L.text?_ofText key)

end Library

/-- The value counts as nothing. -/
def Value.isEmpty : Value → Bool
  | null => true
  | bool b => !b
  | int n => n == 0
  | float x => x == 0.0
  | str s => s.isEmpty
  | bytes bs => bs.isEmpty
  | list items | tuple items | set items => items.isEmpty
  | map pairs => pairs.isEmpty
  | day _ | moment _ => false

/-- The items, if the value is a list. -/
def Value.list? : Value → Option (List Value)
  | list items => some items
  | _ => none

/-- The entries, if the value is a mapping. -/
def Value.entries? : Value → Option (List (Value × Value))
  | map pairs => some pairs
  | _ => none

/-- The class of a fault of a document. -/
def Yaml.Fault.kind : Yaml.Fault → ErrorClass
  | malformed => .document
  | emptyNumber => .other "IndexError"
  | badTruth _ => .other "KeyError"
  | badMoment => .other "AttributeError"
  | badCode | badInteger _ _ | tooManyDigits _ | badFloat _ | outOfRange _ | badOffset _ => .value

/-- The first line of a report on the issues of options. -/
def issueCount (n : Nat) : String :=
  let ending := if n == 1 then "" else "s"
  s!"{n} validation error{ending} for {Options.modelName}"

/-- The error by which options are refused. -/
def Refusal.raised : Refusal → Raised
  | issues found => ⟨.refusal, issueCount found.length, found⟩
  | tooManyTurns => { kind := .overflow, message := Pattern.Problem.tooManyTurns.message }

/-- Reads the document in the bytes of a file. -/
def Yaml.readBytes (bytes : List UInt8) : Except Raised Value := do
  let text ← (Text.decodeStrict bytes).mapError fun u =>
    { kind := .decoding, message := u.message }
  (Yaml.load (Text.unifyNewlines text)).mapError fun f => { kind := f.kind, message := f.message }

/-- The reader of documents and the check of options of this development, with names of
characters. -/
def Library.standard (characters : Pattern.CharacterNames) : Library Value Options where
  read := Yaml.readBytes
  validate pairs := (Options.check characters (.map pairs)).mapError Refusal.raised
  isEmpty := Value.isEmpty
  text? := Value.str?
  list? := Value.list?
  entries? := Value.entries?
  ofText := .str
  ofList := .list
  text?_ofText _ := rfl

/-- The library that the program is run with. -/
def Library.usual : Library Value Options := .standard Text.latinCharacter?

end ScriptModules
