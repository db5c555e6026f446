import ScriptModules.Text.Digit
import ScriptModules.Text.Quoted

/-!
# Faults in patterns and templates

A written pattern or template is refused for one of these causes, mostly at a position in its text.
-/

namespace ScriptModules.Pattern

/-- Why a written pattern or template is refused. -/
inductive Fault where
  | endingBackslash
  | incompleteEscape (written : List Char)
  | badEscape (written : List Char)
  | octalTooLarge (written : List Char)
  | missingBrace
  | missingAngle
  | missingName (what : String)
  | openName (terminator : Char)
  | unknownCharacter (name : List Char)
  | openGroup
  | groupOfSameLook
  | noGroup (number : Nat)
  | badGroupName (name : List Char)
  | unknownGroup (name : List Char)
  | groupZero
  | groupTwice (name : List Char) (now was : Nat)
  | openSet
  | badRange (first last : List Char)
  | leastAboveMost
  | nothingToRepeat
  | multipleRepeat
  | endInside
  | unknownExtension (written : List Char)
  | openComment
  | openParenthesis
  | thirdBranch
  | lateFlags
  | localeFlag
  | alphabetFlags
  | flagsUnfinished
  | flagUnknown
  | flagMissing
  | flagsNeedColon
  | globalFlagOn
  | globalFlagOff
  | alphabetFlagOff
  | flagOnAndOff
  | unbalanced
  | variableLookBehind
  deriving DecidableEq, Repr

namespace Fault

/-- The fault in words, without its position. -/
def words : Fault → String
  | endingBackslash => "bad escape (end of pattern)"
  | incompleteEscape s => "incomplete escape " ++ String.ofList s
  | badEscape s => "bad escape " ++ String.ofList s
  | octalTooLarge s => "octal escape value " ++ String.ofList s ++ " outside of range 0-0o377"
  | missingBrace => "missing \x7b"
  | missingAngle => "missing <"
  | missingName what => "missing " ++ what
  | openName terminator => "missing " ++ terminator.toString ++ ", unterminated name"
  | unknownCharacter name => "undefined character name " ++ String.ofList (Text.quoted name)
  | openGroup => "cannot refer to an open group"
  | groupOfSameLook => "cannot refer to group defined in the same lookbehind subpattern"
  | noGroup number => "invalid group reference " ++ toString number
  | badGroupName name => "bad character in group name " ++ String.ofList (Text.quoted name)
  | unknownGroup name => "unknown group name " ++ String.ofList (Text.quoted name)
  | groupZero => "bad group number"
  | groupTwice name now was =>
    "redefinition of group name " ++ String.ofList (Text.quoted name) ++ " as group " ++
      toString now ++
      "; was group " ++ toString was
  | openSet => "unterminated character set"
  | badRange first last =>
      "bad character range " ++ String.ofList first ++ "-" ++ String.ofList last
  | leastAboveMost => "min repeat greater than max repeat"
  | nothingToRepeat => "nothing to repeat"
  | multipleRepeat => "multiple repeat"
  | endInside => "unexpected end of pattern"
  | unknownExtension s => "unknown extension ?" ++ String.ofList s
  | openComment => "missing ), unterminated comment"
  | openParenthesis => "missing ), unterminated subpattern"
  | thirdBranch => "conditional backref with more than two branches"
  | lateFlags => "global flags not at the start of the expression"
  | localeFlag => "bad inline flags: cannot use 'L' flag with a str pattern"
  | alphabetFlags => "bad inline flags: flags 'a', 'u' and 'L' are incompatible"
  | flagsUnfinished => "missing -, : or )"
  | flagUnknown => "unknown flag"
  | flagMissing => "missing flag"
  | flagsNeedColon => "missing :"
  | globalFlagOn => "bad inline flags: cannot turn on global flag"
  | globalFlagOff => "bad inline flags: cannot turn off global flag"
  | alphabetFlagOff => "bad inline flags: cannot turn off flags 'a', 'u' and 'L'"
  | flagOnAndOff => "bad inline flags: flag turned on and off"
  | unbalanced => "unbalanced parenthesis"
  | variableLookBehind => "look-behind requires fixed-width pattern"

end Fault

/-- What is wrong with a written pattern or template. -/
inductive Problem where
  /-- A fault in the given text, at a position of it if it has one. -/
  | malformed (fault : Fault) (source : List Char) (position : Option Nat)
  /-- Two flags that set the alphabet were both given for the whole pattern. -/
  | alphabetClash
  /-- A repetition count is larger than any repetition may be. -/
  | tooManyTurns
  /-- A repetition count has more digits than any number may have. -/
  | tooManyDigits (digits : Nat)
  /-- A template names a group that its pattern lacks. -/
  | noSuchGroup (name : List Char)
  deriving DecidableEq, Repr

namespace Problem

/-- The position with the line and column, if the text has several lines. -/
def place (source : List Char) (position : Nat) : String :=
  let upTo := source.take position
  let line := upTo.count '\n' + 1
  let column := (upTo.reverse.takeWhile (· != '\n')).length + 1
  " at position " ++ toString position ++
    if source.contains '\n' then
      " (line " ++ toString line ++ ", column " ++ toString column ++ ")"
    else ""

/-- The problem in words. -/
def message : Problem → String
  | malformed fault source position => fault.words ++ (position.map (place source)).getD ""
  | alphabetClash => "ASCII and UNICODE flags are incompatible"
  | tooManyTurns => "the repetition number is too large"
  | tooManyDigits digits => Text.tooManyDigits digits
  | noSuchGroup name => "unknown group name " ++ String.ofList (Text.quoted name)

end Problem

end ScriptModules.Pattern
