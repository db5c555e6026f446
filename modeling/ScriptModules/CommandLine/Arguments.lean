import ScriptModules.Notice
import ScriptModules.Text.Numeral
import ScriptModules.Text.Split

/-!
# Arguments

The command line has one operand, the path of the options file, and some flags. A flag may be
written as any of its names, as a part that starts only one long name, or with its value after an
equals sign. After a double hyphen there are only operands.
-/

namespace ScriptModules.CommandLine

/-- The flags. -/
inductive Flag where
  | help
  | inputs
  | output
  | namespaceName
  | banner
  | logLevel
  deriving DecidableEq, Repr

namespace Flag

/-- All names of flags, in the order in which messages list them. -/
def table : List (String × Flag) :=
  [("-h", help), ("--help", help), ("--inputs", inputs), ("--output", output),
    ("--global", namespaceName), ("--banner", banner), ("--log-level", logLevel)]

/-- The names of a flag in messages. -/
def label (f : Flag) : String :=
  "/".intercalate ((table.filter (·.2 == f)).map (·.1))

end Flag

/-- What is wrong with a command line. -/
inductive UsageFault where
  | ambiguous (word : String) (names : List String)
  | expectedOne (flag : Flag)
  | expectedSome (flag : Flag)
  | ignoredValue (flag : Flag) (value : String)
  | unknownLevel (value : String)
  | noOperand
  | unrecognized (words : List String)
  deriving DecidableEq, Repr

namespace UsageFault

/-- A fault of one flag. -/
def onFlag (flag : Flag) (text : String) : String := s!"argument {flag.label}: {text}"

/-- The fault in words. -/
def message : UsageFault → String
  | ambiguous word names => s!"ambiguous option: {word} could match " ++ ", ".intercalate names
  | expectedOne flag => onFlag flag "expected one argument"
  | expectedSome flag => onFlag flag "expected at least one argument"
  | ignoredValue flag value => onFlag flag s!"ignored explicit argument {Text.quote value}"
  | unknownLevel value =>
    let levels := ", ".intercalate (Level.all.map fun l => Text.quote l.name)
    onFlag .logLevel s!"invalid choice: {Text.quote value} (choose from {levels})"
  | noOperand => "the following arguments are required: config"
  | unrecognized words => "unrecognized arguments: " ++ " ".intercalate words

end UsageFault

/-- How a word of the command line is read. -/
inductive Reading where
  | operand
  /-- The double hyphen that ends the flags. -/
  | separator
  /-- A flag; a value after an equals sign belongs to it. -/
  | flag (flag : Flag) (value : Option String)
  /-- A flag of one letter, and what is written right after the letter. -/
  | cluster (flag : Flag) (tail : String)
  | unknownFlag
  deriving DecidableEq, Repr

/-- A word with its reading. -/
structure Word where
  text : String
  reading : Reading
  deriving DecidableEq, Repr

namespace Word

/-- The word is a flag, known or not. -/
def isFlag (w : Word) : Bool :=
  match w.reading with
  | .operand | .separator => false
  | _ => true

/-- The word is an operand or a value of a flag. -/
def isOperand (w : Word) : Bool := w.reading == .operand

/-- Cuts a text at its first equals sign. -/
def splitEquals (s : String) : String × Option String :=
  let cs := s.toList
  if cs.contains '=' then
    (String.ofList (cs.takeWhile (· != '=')),
      some (String.ofList ((cs.dropWhile (· != '=')).drop 1)))
  else (s, none)

/-- The digits of a negative number, with or without a point; one line feed may follow. -/
def isNegativeNumber (s : String) : Bool :=
  match s.toList with
  | '-' :: cs =>
    let cs := if cs.getLast? == some '\n' then cs.dropLast else cs
    match cs.dropWhile Text.isDecimal with
    | [] => !cs.isEmpty
    | '.' :: rest => !rest.isEmpty && rest.all Text.isDecimal
    | _ => false
  | _ => false

/-- The readings of a word as a part of a name. -/
def abbreviations (s : String) : List (String × Reading) :=
  match s.toList with
  | '-' :: '-' :: _ =>
    let (start, value) := splitEquals s
    (Flag.table.filter fun p => start.toList.isPrefixOf p.1.toList).map fun p =>
      (p.1, .flag p.2 value)
  | '-' :: c :: tail =>
    Flag.table.filterMap fun p =>
      if p.1.toList == ['-', c] then some (p.1, .cluster p.2 (String.ofList tail))
      else if s.toList.isPrefixOf p.1.toList then some (p.1, .flag p.2 none)
      else none
  | _ => []

/-- Reads a word that is neither a separator nor after one. -/
def read (s : String) : Except UsageFault Reading :=
  let (start, value) := splitEquals s
  if s.toList.head? != some '-' then return .operand
  else if let some f := Flag.table.lookup s then return .flag f none
  else if s.length == 1 then return .operand
  else if let (some f, some v) := (Flag.table.lookup start, value) then return .flag f (some v)
  else
    match abbreviations s with
    | [(_, reading)] => return reading
    | [] =>
      if isNegativeNumber s || s.toList.contains ' ' then return .operand else return .unknownFlag
    | several => throw (.ambiguous s (several.map (·.1)))

/-- Reads all words. -/
def readAll : List String → Except UsageFault (List Word)
  | [] => return []
  | s :: rest => do
    if s == "--" then return ⟨s, .separator⟩ :: rest.map fun r => ⟨r, .operand⟩
    else
      let reading ← read s
      return ⟨s, reading⟩ :: (← readAll rest)

end Word

/-- The settings on a command line. -/
structure Arguments where
  config : String
  inputs : Option (List String) := none
  output : Option String := none
  namespaceName : Option String := none
  banner : Option String := none
  logLevel : Level := .info
  deriving DecidableEq, Repr

/-- What a command line asks for. -/
inductive Request where
  | help
  | convert (arguments : Arguments)
  deriving DecidableEq, Repr

/-- What has been read of a command line so far. -/
structure Progress where
  config : Option String := none
  arguments : Arguments := { config := "" }
  /-- Words that have no place, the last first. -/
  extras : List String := []

/-- The end of reading: the help that was asked for, or a fault. -/
inductive Stop where
  | help
  | fault (fault : UsageFault)

namespace Progress

/-- Sets the value of a flag with one value. -/
def set (p : Progress) (flag : Flag) (value : String) : Except Stop Progress :=
  let a := p.arguments
  match flag with
  | .help => throw .help
  | .inputs => return { p with arguments := { a with inputs := some [value] } }
  | .output => return { p with arguments := { a with output := some value } }
  | .namespaceName => return { p with arguments := { a with namespaceName := some value } }
  | .banner => return { p with arguments := { a with banner := some value } }
  | .logLevel =>
    match Level.ofName? value with
    | some l => return { p with arguments := { a with logLevel := l } }
    | none => throw (.fault (.unknownLevel value))

/-- Sets the inputs. -/
def setInputs (p : Progress) (values : List String) : Progress :=
  { p with arguments := { p.arguments with inputs := some values } }

/-- Puts a word with those that have no place. -/
def extra (p : Progress) (w : Word) : Progress := { p with extras := w.text :: p.extras }

/-- Takes an operand: the first is the options file. -/
def operand (p : Progress) (w : Word) : Progress :=
  match p.config with
  | none => { p with config := some w.text }
  | some _ => p.extra w

/-- Reads the letters right after that of the help flag, which takes no value. -/
def helpCluster : List Char → Stop
  | [] => .help
  | c :: rest =>
    if c == '-' then .fault (.ignoredValue .help (String.ofList (c :: rest)))
    else if c == 'h' then
      match rest with
      | '=' :: value => .fault (.ignoredValue .help (String.ofList value))
      | rest => helpCluster rest
    else .help

/-- Takes the words after the last flag: at most one operand, with a separator before or after
it. -/
def finish (p : Progress) (ws : List Word) : Progress :=
  let rest :=
    match p.config, ws with
    | none, ⟨_, .separator⟩ :: w :: rest => (p.operand w, rest)
    | none, w :: ⟨_, .separator⟩ :: rest => if w.isOperand then (p.operand w, rest) else (p, ws)
    | none, w :: rest => if w.isOperand then (p.operand w, rest) else (p, ws)
    | some _, ws => (p, ws)
    | none, [] => (p, [])
  rest.2.foldl extra rest.1

/-- Takes words up to the end. -/
def take (p : Progress) (ws : List Word) : Except Stop Progress := do
  match ws with
  | [] => return p
  | w :: rest =>
    if !(w :: rest).any Word.isFlag then return p.finish (w :: rest)
    else
      match w.reading with
      | .operand => (p.operand w).take rest
      | .separator | .unknownFlag => (p.extra w).take rest
      | .cluster .help tail => throw (helpCluster tail.toList)
      | .cluster flag tail => (← p.set flag tail).take rest
      | .flag .help (some value) => throw (.fault (.ignoredValue .help value))
      | .flag .help none => throw .help
      | .flag flag (some value) => (← p.set flag value).take rest
      | .flag .inputs none =>
        if (rest.takeWhile Word.isOperand).isEmpty then throw (.fault (.expectedSome .inputs))
        else
          (p.setInputs ((rest.takeWhile Word.isOperand).map (·.text))).take
            (rest.dropWhile Word.isOperand)
      | .flag flag none =>
        match rest with
        | value :: others =>
          if value.isOperand then (← p.set flag value.text).take others
          else throw (.fault (.expectedOne flag))
        | [] => throw (.fault (.expectedOne flag))
termination_by ws.length
decreasing_by
  all_goals
    have := (List.dropWhile_suffix Word.isOperand (l := rest)).length_le
    simp only [List.length_cons] at this ⊢
    omega

/-- The request, once all words are taken. -/
def request (p : Progress) : Except UsageFault Request :=
  match p.config with
  | none => throw .noOperand
  | some config =>
    if p.extras.isEmpty then return .convert { p.arguments with config }
    else throw (.unrecognized p.extras.reverse)

end Progress

/-- Reads a command line. -/
def Request.parse (args : List String) : Except UsageFault Request := do
  let words ← Word.readAll args
  match Progress.take {} words with
  | .ok p => p.request
  | .error .help => return .help
  | .error (.fault f) => throw f

end ScriptModules.CommandLine
