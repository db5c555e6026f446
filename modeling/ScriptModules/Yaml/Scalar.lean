import ScriptModules.Text.Integer
import ScriptModules.Text.Split
import ScriptModules.Yaml.Fault
import ScriptModules.Yaml.Tag

/-!
# Values of scalars

The value of a scalar with a given tag, or the reason why it has none.
-/

namespace ScriptModules.Yaml

/-! ### Numbers -/

/-- Reads digits of a base, which are all of the given text or come after a mark of the base. -/
def digitsIn (base : Nat) (s digits : List Char) : Except Fault Nat :=
  if digits.isEmpty || !digits.all (fun c => Text.isHex c && Text.digitValue c < base) then
    throw (.badInteger base (String.ofList s))
  else return Text.numberIn base digits

/-- Reads a decimal number. -/
def decimal (s : List Char) : Except Fault Int :=
  match Text.integerOf? s with
  | some n => return n
  | none =>
    let digits := Text.digitCount s
    if Text.digitLimit < digits then throw (.tooManyDigits digits)
    else throw (.badInteger 10 (String.ofList s))

/-- The sign of a number and the rest of it. -/
def splitSign : List Char → Int × List Char
  | '-' :: rest => (-1, rest)
  | '+' :: rest => (1, rest)
  | rest => (1, rest)

/-- Reads a whole number without its sign. -/
def magnitude (s : List Char) : Except Fault Int :=
  match s with
  | [] => throw .emptyNumber
  | ['0'] => return 0
  | '0' :: 'b' :: digits => Int.ofNat <$> digitsIn 2 digits digits
  | '0' :: 'x' :: digits => Int.ofNat <$> digitsIn 16 digits digits
  | '0' :: 'o' :: digits | '0' :: 'O' :: digits => Int.ofNat <$> digitsIn 8 s digits
  | '0' :: _ => Int.ofNat <$> digitsIn 8 s s
  | _ =>
    if s.contains ':' then do
      return (← (Text.splitOn ':' s).mapM decimal).foldl (fun n d => 60 * n + d) 0
    else decimal s

/-- The value of a whole number. -/
def integerValue (text : String) : Except Fault Value := do
  let (sign, s) := splitSign (text.toList.filter (· != '_'))
  return .int (sign * (← magnitude s))

/-- The floating point number next to `mantissa · 10 ^ exponent`. Exponents beyond the range of such
numbers do not count further. -/
def floatNear (mantissa : Nat) (exponent : Int) : Float :=
  let limit : Int := 400 + (toString mantissa).length
  let e := max (-limit) (min limit exponent)
  Float.ofScientific mantissa (e < 0) e.natAbs

/-- The words for numbers that no digits write. -/
def floatWord? (s : List Char) : Option Float :=
  if s == "inf".toList || s == "infinity".toList then some (1.0 / 0.0)
  else if s == "nan".toList then some (0.0 / 0.0)
  else none

/-- Reads a decimal number without its sign, with an optional point and exponent; `bad` is the fault
of any other text. -/
def scientificMagnitude (bad : Fault) (body : List Char) : Except Fault Float := do
  let whole := body.takeWhile Char.isDigit
  let rest := body.dropWhile Char.isDigit
  let (fraction, rest) := match rest with
    | '.' :: r => (r.takeWhile Char.isDigit, r.dropWhile Char.isDigit)
    | r => ([], r)
  if whole.isEmpty && fraction.isEmpty then throw bad
  let exponent : Int ←
    match rest with
    | [] => pure 0
    | e :: r =>
      let (sign, digits) := splitSign r
      if e != 'e' || digits.isEmpty || !digits.all Char.isDigit then throw bad
      else pure (sign * Text.numberIn 10 digits)
  return floatNear (Text.numberIn 10 (whole ++ fraction)) (exponent - fraction.length)

/-- Reads a decimal number with an optional point and exponent, or a word for a number. -/
def scientific (s : List Char) : Except Fault Float := do
  let (sign, body) := splitSign (Text.trim s)
  let x ← match floatWord? body with
    | some x => pure x
    | none => scientificMagnitude (.badFloat (String.ofList s)) body
  return if sign < 0 then -x else x

/-- The value of places in base sixty, the last first. -/
def sixtyValue : Float → Float → List Float → Float
  | sum, _, [] => sum
  | sum, unit, x :: rest => sixtyValue (sum + x * unit) (unit * 60.0) rest

/-- Reads a number with a point, without its sign. -/
def floatMagnitude (s : List Char) : Except Fault Float := do
  if s.isEmpty then throw (.badFloat "")
  else if s == ".inf".toList then return 1.0 / 0.0
  else if s == ".nan".toList then return 0.0 / 0.0
  else if s.contains ':' then
    return sixtyValue 0.0 1.0 (← (Text.splitOn ':' s).mapM scientific).reverse
  else scientific s

/-- The value of a number with a point. -/
def floatValue (text : String) : Except Fault Value := do
  let s := (text.toList.filter (· != '_')).map Char.toLower
  if s.isEmpty then throw .emptyNumber
  let (sign, body) := splitSign s
  let x ← floatMagnitude body
  return .float (if sign < 0 then -x else x)

/-! ### Truth values -/

/-- The value of a truth value. -/
def boolValue (text : String) : Except Fault Value :=
  let s := text.toLower
  if ["yes", "true", "on"].contains s then return .bool true
  else if ["no", "false", "off"].contains s then return .bool false
  else throw (.badTruth s)

/-! ### Days and moments -/

/-- A leap year. -/
def isLeap (year : Nat) : Bool := (year % 4 == 0 && year % 100 != 0) || year % 400 == 0

/-- The number of days in a month. -/
def daysIn (year month : Nat) : Nat :=
  if month == 2 then if isLeap year then 29 else 28
  else if [4, 6, 9, 11].contains month then 30
  else 31

/-- Refuses a part outside its range. -/
def require (inRange : Bool) (part : TimePart) : Except Fault Unit :=
  if inRange then return () else throw (.outOfRange part)

/-- Checks a day. -/
def checkDay (d : Day) : Except Fault Day := do
  require (0 < d.year) .year
  require (0 < d.month && d.month ≤ 12) .month
  require (0 < d.day && d.day ≤ daysIn d.year d.month) .day
  return d

/-- Checks a moment. -/
def checkMoment (m : Moment) : Except Fault Moment := do
  let _ ← checkDay m.date
  require (m.hour ≤ 23) .hour
  require (m.minute ≤ 59) .minute
  require (m.second ≤ 59) .second
  return m

/-- The first six digits of a fraction. -/
def microsOf (digits : List Char) : Nat :=
  let first := digits.take 6
  Text.numberIn 10 (first ++ List.replicate (6 - first.length) '0')

/-- The distance from universal time in minutes, if it is given. -/
def offsetOf (m : Pattern.Match) : Except Fault (Option Int) :=
  if (m.group? 9).isSome then
    let size : Int := Text.numberIn 10 (m.group 10) * 60 + Text.numberIn 10 (m.group 11)
    let minutes := if m.group 9 == ['-'] then -size else size
    if 1440 ≤ size then throw (.badOffset minutes) else return some minutes
  else return (m.group? 8).map fun _ => 0

/-- The value of a day or a moment. -/
def timestampValue (text : String) : Except Fault Value := do
  match Form.moment.matchStart text.toList with
  | none => throw .badMoment
  | some m =>
    let number (index : Nat) : Nat := Text.numberIn 10 (m.group index)
    let date : Day := ⟨number 1, number 2, number 3⟩
    match m.group? 4 with
    | none => return .day (← checkDay date)
    | some _ =>
      let offset ← offsetOf m
      return .moment
        (← checkMoment ⟨date, number 4, number 5, number 6, microsOf (m.group 7), offset⟩)

/-! ### Bytes -/

/-- The value of a character in base 64. -/
def base64Value? (c : Char) : Option Nat :=
  if 'A' ≤ c && c ≤ 'Z' then some (c.toNat - 'A'.toNat)
  else if 'a' ≤ c && c ≤ 'z' then some (c.toNat - 'a'.toNat + 26)
  else if c.isDigit then some (c.toNat - '0'.toNat + 52)
  else if c == '+' then some 62
  else if c == '/' then some 63
  else none

/-- The digits of a text in base 64, with the number of digits read since the last full group of
four and the number of signs of padding after them. Other characters do not count. A text ends with
a full group, or with the padding that makes one full. -/
def base64Digits? : Nat → Nat → List Char → Option (List Nat)
  | place, _, [] => if place == 0 then some [] else none
  | place, padding, c :: rest =>
    if c == '=' then
      if place < 2 then base64Digits? place padding rest
      else if 4 ≤ place + padding + 1 then some []
      else base64Digits? place (padding + 1) rest
    else
      match base64Value? c with
      | none => base64Digits? place padding rest
      | some d => (base64Digits? ((place + 1) % 4) 0 rest).map (d :: ·)

/-- The bytes of digits in base 64. -/
def base64Bytes : List Nat → List UInt8
  | a :: b :: c :: d :: rest =>
    let n := ((a * 64 + b) * 64 + c) * 64 + d
    (n / 65536).toUInt8 :: (n / 256).toUInt8 :: n.toUInt8 :: base64Bytes rest
  | [a, b, c] =>
    let n := (a * 64 + b) * 64 + c
    [(n / 1024).toUInt8, (n / 4).toUInt8]
  | [a, b] => [((a * 64 + b) / 16).toUInt8]
  | _ => []

/-- The value of a text in base 64. -/
def binaryValue (text : String) : Except Fault Value :=
  let s := text.toList
  match if s.all (·.toNat < 128) then base64Digits? 0 0 s else none with
  | some digits => return .bytes (base64Bytes digits)
  | none => throw .malformed

/-! ### Scalars -/

/-- The value of a scalar with a tag for scalars. -/
def scalarValue (tag : Tag) (text : String) : Except Fault Value :=
  match tag with
  | .null => return .null
  | .bool => boolValue text
  | .int => integerValue text
  | .float => floatValue text
  | .binary => binaryValue text
  | .timestamp => timestampValue text
  | .str => return .str text
  | _ => throw .malformed

end ScriptModules.Yaml
