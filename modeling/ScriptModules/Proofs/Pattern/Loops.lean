import ScriptModules.Proofs.Pattern.Scan
import Mathlib.Logic.Relation

/-!
# Repetitions of parts

A part that always takes at least one character can be repeated without regard to where its last
turn started. A repetition then leads exactly to the cursors that are reached by turns of the part,
in any number, and it prefers one more turn to none. Where only one of them lets the rest of a
pattern go on, that one is taken, however much the repetition has to give back for it.
-/

namespace ScriptModules.Pattern.Node

variable {n : Node} {c d e : Cursor}

/-- Some number of turns of the pattern leads from one cursor to the other. -/
def Reaches (n : Node) : Cursor → Cursor → Prop := Relation.ReflTransGen fun c d => d ∈ n.ways c

theorem some_pos_ne_of_mem_ways (hn : n.Advances) (h : e ∈ n.ways c) : some c.pos ≠ some e.pos := by
  rw [ne_eq, Option.some.injEq]
  exact Nat.ne_of_lt (hn _ _ h)

/-- Optional turns of a pattern that advances lead to all cursors that are reached. -/
theorem mem_greedyWays_of_reaches (hn : n.Advances) (h : n.Reaches c d) {measure : List Char}
    {last : Option Nat} (hmeasure : c.after.length < measure.length) (hlast : last ≠ some c.pos) :
    d ∈ Matcher.greedyWays n.ways measure none last c := by
  induction h using Relation.ReflTransGen.head_induction_on generalizing measure last with
  | refl =>
      cases measure with
      | nil => simp at hmeasure
      | cons x measure => simp [Matcher.greedyWays, Matcher.exhausted, hlast]
  | @head c e hturn _ ih =>
      cases measure with
      | nil => simp at hmeasure
      | cons x measure =>
          have hshorter := length_after_lt_of_mem_ways hn hturn
          have hlater := some_pos_ne_of_mem_ways hn hturn
          have hexhausted : ¬ Matcher.exhausted none last c = true := by
            simp [Matcher.exhausted, hlast]
          rw [Matcher.greedyWays, if_neg hexhausted]
          apply List.mem_append_left
          refine List.mem_flatMap.mpr ⟨e, hturn, ih ?_ hlater⟩
          rw [List.length_cons] at hmeasure
          omega

theorem mem_ways_many (hn : n.Advances) : d ∈ (many n).ways c ↔ n.Reaches c d := by
  rw [many, ways, Matcher.loopWays]
  simp only [Matcher.timesWays, List.flatMap_cons, List.flatMap_nil, List.append_nil,
    Option.map_none]
  constructor
  · intro h
    exact Matcher.greedyWays_closed (r := n.Reaches) (fun _ => .refl) (fun h h' => h.trans h')
      (fun h => .single h) h
  · intro h
    exact mem_greedyWays_of_reaches hn h (by simp) (by simp)

theorem ways_oneOrMore (n : Node) (c : Cursor) :
    (oneOrMore n).ways c = (n.ways c).flatMap (many n).ways := by
  simp [oneOrMore, many, ways, Matcher.loopWays, Matcher.timesWays]

theorem mem_ways_oneOrMore (hn : n.Advances) :
    d ∈ (oneOrMore n).ways c ↔ ∃ e ∈ n.ways c, n.Reaches e d := by
  rw [ways_oneOrMore, List.mem_flatMap]
  simp only [mem_ways_many hn]

/-- For a pattern that advances it does not matter how many turns are counted and where the last one
started. -/
theorem greedyWays_congr (hn : n.Advances) {measure measure' : List Char} {last last' : Option Nat}
    (hmeasure : c.after.length < measure.length) (hmeasure' : c.after.length < measure'.length)
    (hlast : last ≠ some c.pos) (hlast' : last' ≠ some c.pos) :
    Matcher.greedyWays n.ways measure none last c =
      Matcher.greedyWays n.ways measure' none last' c := by
  induction measure generalizing measure' last last' c with
  | nil => simp at hmeasure
  | cons x measure ih =>
      cases measure' with
      | nil => simp at hmeasure'
      | cons y measure' =>
          rw [List.length_cons] at hmeasure hmeasure'
          have hrest : (n.ways c).flatMap (Matcher.greedyWays n.ways measure none (some c.pos)) =
              (n.ways c).flatMap (Matcher.greedyWays n.ways measure' none (some c.pos)) := by
            refine List.flatMap_congr fun e he => ?_
            have hshorter := length_after_lt_of_mem_ways hn he
            have hlater := some_pos_ne_of_mem_ways hn he
            exact ih (by omega) (by omega) hlater hlater
          simp [Matcher.greedyWays, Matcher.exhausted, hlast, hlast', hrest]

/-- A repetition takes one more turn if it can, and else none. -/
theorem ways_many (hn : n.Advances) (c : Cursor) :
    (many n).ways c = (n.ways c).flatMap (many n).ways ++ [c] := by
  have hloop (e : Cursor) :
      (many n).ways e = Matcher.greedyWays n.ways ('.' :: e.after) none none e := by
    simp [many, ways, Matcher.loopWays, Matcher.timesWays]
  have hrest : (n.ways c).flatMap (Matcher.greedyWays n.ways c.after none (some c.pos)) =
      (n.ways c).flatMap (many n).ways := by
    refine List.flatMap_congr fun e he => ?_
    have hshorter := length_after_lt_of_mem_ways hn he
    have hlater := some_pos_ne_of_mem_ways hn he
    rw [hloop e]
    exact greedyWays_congr hn hshorter (by simp) hlater (by simp)
  rw [hloop c, ← hrest]
  simp [Matcher.greedyWays, Matcher.exhausted]

theorem ways_many_seq {k : Node} (hn : n.Advances) (c : Cursor) :
    ((many n).seq k).ways c = (n.seq ((many n).seq k)).ways c ++ k.ways c := by
  rw [ways, ways_many hn, List.flatMap_append, List.flatMap_assoc, List.flatMap_singleton]
  rfl

theorem ways_oneOrMore_seq {k : Node} (c : Cursor) :
    ((oneOrMore n).seq k).ways c = (n.seq ((many n).seq k)).ways c := by
  rw [ways, ways_oneOrMore, List.flatMap_assoc]
  rfl
/-- A sequence takes the only way of its first part from which the second part can go on. -/
theorem Takes.seq_of_forall {m : Node} (h : e ∈ m.ways c) (hnext : n.Takes e d)
    (hall : ∀ f ∈ m.ways c, f = e ∨ n.ways f = []) : (m.seq n).Takes c d := by
  rw [Takes, ways]
  generalize m.ways c = found at h hall
  induction found with
  | nil => simp at h
  | cons f found ih =>
      rw [List.flatMap_cons, List.head?_append]
      rcases hall f (by simp) with rfl | hnone
      · rw [show (n.ways f).head? = some d from hnext, Option.some_or]
      · have hmem : e ∈ found := by
          rcases List.mem_cons.mp h with rfl | h
          · simp [Takes, hnone] at hnext
          · exact h
        rw [hnone, List.head?_nil, Option.none_or]
        exact ih hmem fun g hg => hall g (List.mem_cons_of_mem _ hg)

end ScriptModules.Pattern.Node
