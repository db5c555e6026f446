import ScriptModules.Decimal.Shortest
import ScriptModules.Entries
import ScriptModules.Text.Quoted
import ScriptModules.Text.Utf8

/-!
# Option values

Options are given as values of many kinds before they are checked. A value has two texts: the one
that takes its place where a text is expected, and the one by which messages show it.
-/

namespace ScriptModules

/-- A calendar day. -/
structure Day where
  year : Nat
  month : Nat
  day : Nat
  deriving DecidableEq, Repr

/-- A time of a day, with the distance from universal time in minutes if it is known. -/
structure Moment where
  date : Day
  hour : Nat
  minute : Nat
  second : Nat
  micro : Nat
  offset : Option Int
  deriving DecidableEq, Repr

/-- An option value. -/
inductive Value where
  | null
  | bool (b : Bool)
  | int (n : Int)
  | float (x : Float)
  | str (s : String)
  | bytes (bs : List UInt8)
  | day (d : Day)
  | moment (m : Moment)
  | list (items : List Value)
  | tuple (items : List Value)
  | set (items : List Value)
  | map (pairs : List (Value × Value))

namespace Value

/-- A number with zeros in front up to a width. -/
def padded (width n : Nat) : String :=
  let digits := toString n
  Decimal.zeros (width - digits.length) ++ digits

/-- The numbers in parentheses after a name. -/
def call (name : String) (args : List String) : String :=
  name ++ "(" ++ ", ".intercalate args ++ ")"

/-- A day as text. -/
def dayText (d : Day) : String :=
  padded 4 d.year ++ "-" ++ padded 2 d.month ++ "-" ++ padded 2 d.day

/-- A day in messages. -/
def dayReport (d : Day) : String :=
  call "datetime.date" [toString d.year, toString d.month, toString d.day]

/-- The distance from universal time as text. -/
def offsetText (minutes : Int) : String :=
  let n := minutes.natAbs
  (if minutes < 0 then "-" else "+") ++ padded 2 (n / 60) ++ ":" ++ padded 2 (n % 60)

/-- A span of minutes in messages: whole days, which may be negative, and the seconds after them. -/
def spanReport (minutes : Int) : String :=
  let days := minutes.fdiv 1440
  let seconds := minutes.fmod 1440 * 60
  call "datetime.timedelta" ((if days == 0 then [] else [s!"days={days}"]) ++
    (if seconds == 0 then [] else [s!"seconds={seconds}"]))

/-- The distance from universal time in messages. -/
def offsetReport (minutes : Int) : String :=
  if minutes == 0 then "datetime.timezone.utc"
  else call "datetime.timezone" [spanReport minutes]

/-- A moment as text. -/
def momentText (m : Moment) : String :=
  dayText m.date ++ " " ++ padded 2 m.hour ++ ":" ++ padded 2 m.minute ++ ":" ++
    padded 2 m.second ++
    (if m.micro == 0 then "" else "." ++ padded 6 m.micro) ++ (m.offset.map offsetText).getD ""

/-- A moment in messages. -/
def momentReport (m : Moment) : String :=
  let tail :=
    if m.micro != 0 then [m.second, m.micro] else if m.second != 0 then [m.second] else []
  let numbers := [m.date.year, m.date.month, m.date.day, m.hour, m.minute] ++ tail
  let zone := m.offset.map fun o => "tzinfo=" ++ offsetReport o
  call "datetime.datetime" (numbers.map toString ++ zone.toList)

/-- A byte between the given quotes. -/
def quotedByte (quote : Char) (b : UInt8) : List Char :=
  let c := Char.ofNat b.toNat
  if c == quote || c == '\\' then ['\\', c]
  else if c == '\n' then ['\\', 'n']
  else if c == '\r' then ['\\', 'r']
  else if c == '\t' then ['\\', 't']
  else if 0x20 ≤ b && b < 0x7f then [c]
  else '\\' :: 'x' :: (Text.hexByte b).toList

/-- Bytes in messages. -/
def bytesReport (bs : List UInt8) : String :=
  let quote := Text.quoteFor (bs.map fun b => Char.ofNat b.toNat)
  String.ofList ('b' :: quote :: bs.flatMap (quotedByte quote) ++ [quote])

/-- A truth value as text. -/
def boolText (b : Bool) : String := if b then "True" else "False"

mutual

/-- The value in messages. -/
def report : Value → String
  | null => "None"
  | bool b => boolText b
  | int n => toString n
  | float x => Decimal.floatText x
  | str s => Text.quote s
  | bytes bs => bytesReport bs
  | day d => dayReport d
  | moment m => momentReport m
  | list items => "[" ++ ", ".intercalate (reportItems items) ++ "]"
  | tuple [] => "()"
  | tuple [item] => "(" ++ report item ++ ",)"
  | tuple (first :: rest) => "(" ++ ", ".intercalate (report first :: reportItems rest) ++ ")"
  | set [] => "set()"
  | set (first :: rest) => "\x7b" ++ ", ".intercalate (report first :: reportItems rest) ++ "\x7d"
  | map pairs => "\x7b" ++ ", ".intercalate (reportPairs pairs) ++ "\x7d"

/-- The values of a list in messages. -/
def reportItems : List Value → List String
  | [] => []
  | v :: rest => report v :: reportItems rest

/-- The entries of a mapping in messages. -/
def reportPairs : List (Value × Value) → List String
  | [] => []
  | (k, v) :: rest => (report k ++ ": " ++ report v) :: reportPairs rest

end

/-- The value as text. -/
def text : Value → String
  | str s => s
  | day d => dayText d
  | moment m => momentText m
  | v => v.report

/-- The items of a list or tuple. -/
def items? : Value → Option (List Value)
  | list items => some items
  | tuple items => some items
  | _ => none

/-- The text, if the value is one. -/
def str? : Value → Option String
  | str s => some s
  | _ => none

/-- The entry of a mapping under a text. -/
def entry? (key : String) (pairs : List (Value × Value)) : Option Value :=
  Entries.find? str? key pairs

end Value

end ScriptModules
