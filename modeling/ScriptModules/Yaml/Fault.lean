import ScriptModules.Text.Digit
import ScriptModules.Value

/-!
# Faults of documents

Why a document has no value.
-/

namespace ScriptModules.Yaml

/-- The parts of a moment that have a range. -/
inductive TimePart where
  | year
  | month
  | day
  | hour
  | minute
  | second
  deriving DecidableEq, Repr

/-- Why a document is refused. -/
inductive Fault where
  /-- The document is not well formed, or a node does not fit its tag. -/
  | malformed
  /-- An escape stands for a code point beyond the last one. -/
  | badCode
  /-- A whole number is written with other digits than those of its base. -/
  | badInteger (base : Nat) (digits : String)
  /-- A whole number has more digits than any number may have. -/
  | tooManyDigits (digits : Nat)
  /-- A number is written in no known way. -/
  | badFloat (text : String)
  /-- A number has no digits. -/
  | emptyNumber
  /-- A word stands for no truth value. -/
  | badTruth (word : String)
  /-- A text is no moment. -/
  | badMoment
  /-- A part of a moment is outside its range. -/
  | outOfRange (part : TimePart)
  /-- A moment is a day or more away from universal time, by so many minutes. -/
  | badOffset (minutes : Int)
  deriving DecidableEq, Repr

namespace Fault

/-- The range of a part of a moment, in words. -/
def rangeText : TimePart → String
  | .year => "year 0 is out of range"
  | .month => "month must be in 1..12"
  | .day => "day is out of range for month"
  | .hour => "hour must be in 0..23"
  | .minute => "minute must be in 0..59"
  | .second => "second must be in 0..59"

/-- The fault in words; those of a malformed document have none. -/
def message : Fault → String
  | malformed => ""
  | badCode => "chr() arg not in range(0x110000)"
  | badInteger base digits => s!"invalid literal for int() with base {base}: {Text.quote digits}"
  | tooManyDigits digits => Text.tooManyDigits digits
  | badFloat text => s!"could not convert string to float: {Text.quote text}"
  | emptyNumber => "string index out of range"
  | badTruth word => Text.quote word
  | badMoment => "'NoneType' object has no attribute 'groupdict'"
  | outOfRange part => rangeText part
  | badOffset minutes =>
    "offset must be a timedelta strictly between -timedelta(hours=24) and " ++
      "timedelta(hours=24), not " ++ Value.spanReport minutes

end Fault

/-- What is not there makes a document malformed. -/
def orMalformed {α : Type} : Option α → Except Fault α
  | some a => .ok a
  | none => .error .malformed

end ScriptModules.Yaml
