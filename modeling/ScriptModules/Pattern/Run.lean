import ScriptModules.Pattern.Cursor

/-!
# Matching by backtracking

Running a pattern at a cursor tries its ways to match in order of preference and hands the cursor
after each to a continuation, until one of them accepts. Alternatives are tried from left to right.

A repetition takes its required turns, and then optional ones. An optional turn is not started where
the one before it started: the text still ahead therefore bounds their number, and serves as the
measure of the recursion.
-/

namespace ScriptModules.Pattern

/-- What follows a match: it accepts the cursor with a final one, or sends the matching back. -/
abbrev Continuation := Cursor → Option Cursor

/-- A way to match, given what follows. -/
abbrev Matcher := Cursor → Continuation → Option Cursor

namespace Matcher

/-- The first of two ways that is accepted. -/
def orElse (first : Option Cursor) (second : Unit → Option Cursor) : Option Cursor :=
  match first with
  | some c => some c
  | none => second ()

/-- A fixed number of turns. -/
def times (turn : Matcher) : Nat → Matcher
  | 0, c, k => k c
  | n + 1, c, k => turn c fun c' => times turn n c' k

/-- No further optional turn may start: none are left, or the last one started here. -/
def exhausted (room last : Option Nat) (c : Cursor) : Bool :=
  room == some 0 || last == some c.pos

/-- Optional turns, as many as possible first. -/
def greedy (turn : Matcher) (k : Continuation) :
    List Char → Option Nat → Option Nat → Cursor → Option Cursor
  | [], _, _, c => k c
  | _ :: measure, room, last, c =>
    if exhausted room last c then k c
    else orElse (turn c fun c' => greedy turn k measure (room.map (· - 1)) (some c.pos) c')
      fun _ => k c

/-- Optional turns, as few as possible first. -/
def reluctant (turn : Matcher) (k : Continuation) :
    List Char → Option Nat → Option Nat → Cursor → Option Cursor
  | [], _, _, c => k c
  | _ :: measure, room, last, c =>
    orElse (k c) fun _ =>
      if exhausted room last c then none
      else turn c fun c' => reluctant turn k measure (room.map (· - 1)) (some c.pos) c'

/-- Optional turns, as many as possible, none of them given back. -/
def possessive (turn : Matcher) : List Char → Option Nat → Option Nat → Cursor → Cursor
  | [], _, _, c => c
  | _ :: measure, room, last, c =>
    if exhausted room last c then c
    else match turn c some with
      | none => c
      | some c' => possessive turn measure (room.map (· - 1)) (some c.pos) c'

/-- A matcher that commits to its first way. -/
def once (turn : Matcher) : Matcher :=
  fun c k => (turn c some).bind k

/-- A repetition of `least` up to `most` turns. -/
def loop (turn : Matcher) (least : Nat) (most : Option Nat) : Greed → Matcher
  | .greedy, c, k =>
    times turn least c fun c' => greedy turn k ('.' :: c'.after) (most.map (· - least)) none c'
  | .reluctant, c, k =>
    times turn least c fun c' => reluctant turn k ('.' :: c'.after) (most.map (· - least)) none c'
  | .possessive, c, k =>
    times (once turn) least c fun c' =>
      k (possessive turn ('.' :: c'.after) (most.map (· - least)) none c')

end Matcher

namespace Node

/-- Runs the pattern at a cursor. -/
def run : Node → Matcher
  | .empty, c, k => k c
  | .set s, c, k =>
    match c.after with
    | [] => none
    | x :: rest => if s.contains x then k (c.past x rest) else none
  | .seq first second, c, k => first.run c fun c' => second.run c' k
  | .alt first second, c, k => Matcher.orElse (first.run c k) fun _ => second.run c k
  | .group index body, c, k => body.run c fun c' => k (c'.capture index c)
  | .backref index rule, c, k => ((c.group? index).bind fun s => c.skip rule s).bind k
  | .anchor a, c, k => if c.holds a then k c else none
  | .look side negated body, c, k =>
    match (c.origin side).bind fun o => body.run o some with
    | some c' => if negated then none else k { c with groups := c'.groups }
    | none => if negated then k c else none
  | .loop greed least most body, c, k => Matcher.loop body.run least most greed c k
  | .atomic body, c, k => Matcher.once body.run c k
  | .branch index present absent, c, k =>
    if (c.group? index).isSome then present.run c k else absent.run c k

end Node

end ScriptModules.Pattern
