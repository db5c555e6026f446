/-!
# Cutting text

Cuts of a text at a separating character or around a separating text.
-/

namespace ScriptModules.Text

/-- The parts between the separators, always at least one. -/
def splitOn (sep : Char) : List Char → List (List Char)
  | [] => [[]]
  | c :: rest =>
    if c == sep then [] :: splitOn sep rest
    else match splitOn sep rest with
      | [] => [[c]]
      | first :: others => (c :: first) :: others

/-- The part before the first occurrence of a text, or all of it. -/
def beforeFirst (sep : List Char) : List Char → List Char
  | [] => []
  | c :: rest => if sep.isPrefixOf (c :: rest) then [] else c :: beforeFirst sep rest

/-- The part after the last occurrence of a text, if there is one. -/
def afterLast? (sep : List Char) : List Char → Option (List Char)
  | [] => none
  | c :: rest =>
    match afterLast? sep rest with
    | some found => some found
    | none => if sep.isPrefixOf (c :: rest) then some ((c :: rest).drop sep.length) else none

/-- The text occurs somewhere. -/
def occurs (part : List Char) : List Char → Bool
  | [] => part.isEmpty
  | c :: rest => part.isPrefixOf (c :: rest) || occurs part rest

theorem splitOn_ne_nil (sep : Char) (s : List Char) : splitOn sep s ≠ [] := by
  cases s with
  | nil => simp [splitOn]
  | cons c rest =>
    unfold splitOn
    split
    · simp
    · split <;> simp

end ScriptModules.Text
