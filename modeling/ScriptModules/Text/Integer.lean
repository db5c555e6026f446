import ScriptModules.Text.Blank
import ScriptModules.Text.Digit
import ScriptModules.Text.Numeral

/-!
# Integers in text

An integer is written with decimal digits of any script, single underscores between digits, an
optional sign and blanks around it.
-/

namespace ScriptModules.Text

/-- Reads digits, each perhaps after one underscore, onto a value. -/
def digitsOnto? (value : Nat) : List Char → Option Nat
  | [] => some value
  | '_' :: c :: rest =>
    match decimalValue? c with
    | some d => digitsOnto? (10 * value + d) rest
    | none => none
  | c :: rest =>
    match decimalValue? c with
    | some d => digitsOnto? (10 * value + d) rest
    | none => none

/-- Reads an unsigned number. -/
def naturalOf? : List Char → Option Nat
  | [] => none
  | c :: rest => (decimalValue? c).bind fun d => digitsOnto? d rest

/-- The number of decimal digits in a text. -/
def digitCount (s : List Char) : Nat := s.countP fun c => (decimalValue? c).isSome

/-- Reads an integer that does not have too many digits. -/
def integerOf? (s : List Char) : Option Int :=
  if digitLimit < digitCount s then none
  else match trim s with
  | '-' :: rest => (naturalOf? rest).map fun n => -(n : Int)
  | '+' :: rest => (naturalOf? rest).map fun n => (n : Int)
  | rest => (naturalOf? rest).map fun n => (n : Int)

end ScriptModules.Text
