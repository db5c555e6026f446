import ScriptModules.Text.Blank
import ScriptModules.Text.Quoted
import ScriptModules.Text.Split

/-!
# Exports

A file exports names. A plain export is declared in the file itself; an entry passes on a name of
another file or gives a name of its own a new one.
-/

namespace ScriptModules

/-- How an entry relates its name to its complement. -/
inductive ExportAction where
  /-- The name comes from the file that the complement names. -/
  | fromFile
  /-- The complement is the new name. -/
  | asName
  /-- No known relation. -/
  | other (word : String)
  deriving DecidableEq, Repr

/-- One exported name. -/
inductive Export where
  | plain (name : String)
  | entry (name : String) (action : ExportAction) (complement : String)
  deriving DecidableEq, Repr

namespace ExportAction

/-- The action of a word. -/
def ofWord (s : String) : ExportAction :=
  if s == "from" then .fromFile else if s == "as" then .asName else .other s

/-- The word of an action. -/
def word : ExportAction → String
  | fromFile => "from"
  | asName => "as"
  | other s => s

/-- The action in reports of whole entries. -/
def report : ExportAction → String
  | fromFile => "<ExportAction.FROM: 'from'>"
  | asName => "<ExportAction.AS: 'as'>"
  | other s => Text.quote s

end ExportAction

/-- The word that renames, with the blanks around it. -/
def renamer : List Char := " as ".toList

namespace Export

/-- The name after the last renaming in a text, without blanks around it. -/
def renamed (s : List Char) : List Char :=
  Text.trim ((Text.afterLast? renamer s).getD s)

/-- The name under which other files import an export. -/
def publicName : Export → String
  | plain name => name
  | entry _ .asName complement => complement
  | entry name _ _ => String.ofList (renamed name.toList)

/-- The export is an entry. -/
def isEntry : Export → Bool
  | plain _ => false
  | entry _ _ _ => true

/-- The name of a plain export. -/
def plain? : Export → Option String
  | plain name => some name
  | entry _ _ _ => none

/-- The export in reports. -/
def report : Export → String
  | plain name => Text.quote name
  | entry name action complement =>
    "ExportEntry(name=" ++ Text.quote name ++ ", action=" ++ action.report ++ ", complement=" ++
      Text.quote complement ++ ")"

/-- A list of exports in reports. -/
def reportList (exports : List Export) : String :=
  "[" ++ ", ".intercalate (exports.map report) ++ "]"

end Export

/-- The items in order of their first occurrence, each once. -/
def unique {α : Type} [DecidableEq α] : List α → List α
  | [] => []
  | a :: rest => a :: (unique rest).filter (· ≠ a)

theorem mem_unique {α : Type} [DecidableEq α] {a : α} {l : List α} : a ∈ unique l ↔ a ∈ l := by
  induction l with
  | nil => simp [unique]
  | cons b rest ih =>
    simp only [unique, List.mem_cons, List.mem_filter, ih, decide_eq_true_eq]
    by_cases h : a = b <;> simp [h]

theorem nodup_unique {α : Type} [DecidableEq α] (l : List α) : (unique l).Nodup := by
  induction l with
  | nil => simp [unique]
  | cons b rest ih =>
    simp only [unique, List.nodup_cons, List.mem_filter, decide_eq_true_eq]
    exact ⟨fun h => h.2 rfl, ih.filter _⟩

end ScriptModules
