/-!
# Range tables

A character class outside ASCII is a table of closed, increasing, disjoint ranges of code points.
Looking up a code point halves the part of the table that can hold it.
-/

namespace ScriptModules.Text

/-- Halving search between the indices `lo` (included) and `hi` (excluded); the first argument
bounds the number of halvings. -/
def searchRanges (table : Array (Nat × Nat)) (n : Nat) : Nat → Nat → Nat → Option (Nat × Nat)
  | 0, _, _ => none
  | steps + 1, lo, hi =>
    if lo < hi then
      let mid := (lo + hi) / 2
      match table[mid]? with
      | none => none
      | some r =>
        if n < r.1 then searchRanges table n steps lo mid
        else if r.2 < n then searchRanges table n steps (mid + 1) hi
        else some r
    else none

/-- The range of the table that holds `n`. -/
def findRange? (table : Array (Nat × Nat)) (n : Nat) : Option (Nat × Nat) :=
  searchRanges table n (table.size.log2 + 1) 0 table.size

/-- Some range of the table holds `n`. -/
def inRanges (table : Array (Nat × Nat)) (n : Nat) : Bool :=
  (findRange? table n).isSome

end ScriptModules.Text
