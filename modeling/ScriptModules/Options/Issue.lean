import ScriptModules.Value

/-!
# Issues with options

Checking options reports every setting that is wrong, with the keys that lead to it.
-/

namespace ScriptModules

/-- A step on the way to a setting: a key that is a text, or one that is a number. -/
inductive KeyStep where
  | text (s : String)
  | number (n : Int)
  deriving DecidableEq, Repr

namespace KeyStep

/-- The step of a key of any kind. Numbers that fit in sixty-four bits and truth values count as
numbers. -/
def ofValue : Value → KeyStep
  | .str s => .text s
  | .int n => if -(Nat.pow 2 63 : Int) ≤ n && n < Nat.pow 2 63 then .number n
    else .text (toString n)
  | .bool b => .number (if b then 1 else 0)
  | v => .text v.report

/-- The text of a step. -/
def asText : KeyStep → String
  | text s => s
  | number n => toString n

end KeyStep

/-- What is wrong with a setting. -/
inductive IssueKind where
  | missing
  | unknownKey
  | notText
  /-- Bytes in the place of a text that are not one. -/
  | notUnicode
  | tooShort
  | notTuple
  | notMapping
  /-- Not a mapping that describes the named thing. -/
  | notModel (name : String)
  | keyNotText
  | value (message : String)
  deriving DecidableEq, Repr

namespace IssueKind

/-- The word for the kind of issue. -/
def word : IssueKind → String
  | missing => "missing"
  | unknownKey => "extra_forbidden"
  | notText => "string_type"
  | notUnicode => "string_unicode"
  | tooShort => "string_too_short"
  | notTuple => "tuple_type"
  | notMapping => "dict_type"
  | notModel _ => "model_type"
  | keyNotText => "invalid_key"
  | value _ => "value_error"

/-- The issue in words. -/
def message : IssueKind → String
  | missing => "Field required"
  | unknownKey => "Extra inputs are not permitted"
  | notText => "Input should be a valid string"
  | notUnicode =>
    "Input should be a valid string, unable to parse raw data as a unicode string"
  | tooShort => "String should have at least 1 character"
  | notTuple => "Input should be a valid tuple"
  | notMapping => "Input should be a valid dictionary"
  | notModel name => s!"Input should be a valid dictionary or instance of {name}"
  | keyNotText => "Keys should be strings"
  | value message => "Value error, " ++ message

end IssueKind

/-- An issue with the keys that lead to it. -/
structure Issue where
  location : List KeyStep
  kind : IssueKind
  deriving DecidableEq, Repr

namespace Issue

/-- The issue seen from one level further out. -/
def under (step : KeyStep) (i : Issue) : Issue := { i with location := step :: i.location }

/-- The order of texts, element by element. -/
def locationLe : List String → List String → Bool
  | [], _ => true
  | _ :: _, [] => false
  | a :: as, b :: bs => decide (a < b) || (a == b && locationLe as bs)

/-- The order of issues by the texts of their locations. -/
def le (i j : Issue) : Bool := locationLe (i.location.map (·.asText)) (j.location.map (·.asText))

/-- Issues in order. -/
def sorted (issues : List Issue) : List Issue := issues.mergeSort le

end Issue

/-- Why options are refused. -/
inductive Refusal where
  | issues (found : List Issue)
  /-- A pattern repeats something too many times. -/
  | tooManyTurns
  deriving DecidableEq, Repr

namespace Refusal

/-- Both refusals as one; a pattern that repeats too often prevails. -/
def merge : Refusal → Refusal → Refusal
  | issues a, issues b => issues (a ++ b)
  | _, _ => tooManyTurns

/-- The refusal seen from one level further out. -/
def under (step : KeyStep) : Refusal → Refusal
  | issues found => issues (found.map (·.under step))
  | tooManyTurns => tooManyTurns

end Refusal

/-- A checked setting, or all that is wrong with it. -/
abbrev Checked (α : Type) := Except Refusal α

namespace Checked

/-- A single issue at this place. -/
def issue {α : Type} (kind : IssueKind) : Checked α := .error (.issues [⟨[], kind⟩])

/-- A setting seen from one level further out. -/
def under {α : Type} (step : KeyStep) (x : Checked α) : Checked α := x.mapError (·.under step)

/-- Applies a checked function to a checked setting and keeps the issues of both. -/
def apply {α β : Type} (f : Checked (α → β)) (x : Checked α) : Checked β :=
  match f, x with
  | .ok f, .ok a => .ok (f a)
  | .ok _, .error e => .error e
  | .error e, .ok _ => .error e
  | .error e, .error e' => .error (e.merge e')

/-- Checks every item and keeps the issues of all. -/
def all {α β : Type} (f : α → Checked β) : List α → Checked (List β)
  | [] => .ok []
  | a :: rest => apply ((f a).map fun b bs => b :: bs) (all f rest)

/-- Both settings must be free of issues; the first is kept. -/
def andThen {α β : Type} (x : Checked α) (y : Checked β) : Checked α :=
  apply (x.map fun a _ => a) y

end Checked

end ScriptModules
