import ScriptModules.Block.Basic
import ScriptModules.Import.Resolve
import ScriptModules.Proofs.Work

/-!
# What import statements list

The groups of a file's imports list an item under a specifier exactly if one of the imports is that
item and has that specifier. Unless an edge case says so, none of the imports names an export of the
file itself.
-/

namespace ScriptModules

namespace ImportGroups

/-- An item stands in the group of a specifier. -/
def Lists (groups : ImportGroups) (specifier item : String) : Prop :=
  ∃ items, (specifier, items) ∈ groups ∧ item ∈ items

theorem not_lists_nil (s i : String) : ¬Lists [] s i := by
  rintro ⟨items, hitems, -⟩
  simp at hitems

theorem lists_cons {t s i : String} {items : List String} {rest : ImportGroups} :
    Lists ((t, items) :: rest) s i ↔ (s = t ∧ i ∈ items) ∨ rest.Lists s i := by
  constructor
  · rintro ⟨found, hfound, hi⟩
    rcases List.mem_cons.mp hfound with heq | hfound
    · obtain ⟨rfl, rfl⟩ := Prod.mk.inj heq
      exact .inl ⟨rfl, hi⟩
    · exact .inr ⟨found, hfound, hi⟩
  · rintro (⟨rfl, hi⟩ | ⟨found, hfound, hi⟩)
    · exact ⟨items, by simp, hi⟩
    · exact ⟨found, List.mem_cons_of_mem _ hfound, hi⟩

/-- Adding an item to a group adds nothing else. -/
theorem lists_add (groups : ImportGroups) {specifier item s i : String} :
    (groups.add specifier item).Lists s i ↔ groups.Lists s i ∨ (s = specifier ∧ i = item) := by
  induction groups with
  | nil => simp [add, lists_cons, not_lists_nil]
  | cons group rest ih =>
      obtain ⟨t, items⟩ := group
      by_cases ht : t = specifier
      · subst ht
        have hadd : add ((t, items) :: rest) t item = (t, items ++ [item]) :: rest := if_pos rfl
        rw [hadd, lists_cons, lists_cons, List.mem_append, List.mem_singleton]
        grind
      · have hadd : add ((t, items) :: rest) specifier item =
            (t, items) :: add rest specifier item := if_neg ht
        rw [hadd, lists_cons, lists_cons, ih, or_assoc]

end ImportGroups

variable {cwd importer : String} {exportMap : ExportMap}

/-- The groups list the imports that have a specifier. -/
theorem lists_groupImports {imports : List Import} {groups result : ImportGroups}
    (h : (groupImports cwd importer exportMap imports groups).run.value = .ok result)
    (specifier item : String) :
    result.Lists specifier item ↔ groups.Lists specifier item ∨
      ∃ i ∈ imports, specifierOf cwd importer exportMap i = .ok (some specifier) ∧
        i.item = item := by
  induction imports generalizing groups with
  | nil =>
      obtain rfl : groups = result := Except.ok.inj h
      simp
  | cons i imports ih =>
      obtain ⟨found, hfound, hrest⟩ := Work.value_bind_eq_ok.mp h
      rw [Work.value_result] at hfound
      cases found with
      | some s =>
          rw [ih hrest, ImportGroups.lists_add, or_assoc]
          simp only [List.mem_cons, or_and_right, exists_or, exists_eq_left, hfound,
            Except.ok.injEq, Option.some.injEq]
          rw [@eq_comm _ specifier, @eq_comm _ item]
      | none =>
          obtain ⟨-, -, hrest⟩ := Work.value_bind_eq_ok.mp hrest
          rw [ih hrest]
          simp [hfound]

theorem exists_symbol_of_mem_external {own : List String} {items : List (List Char)} {i : Import}
    (h : i ∈ (Import.external own items).value) :
    ∃ item, i = .symbol item ∧ importedName item ∉ own := by
  induction items with
  | nil => simp [Import.external] at h
  | cons item items ih =>
      rw [Import.external] at h
      split at h
      · exact ih h
      · split at h
        · exact ih h
        · rename_i hown
          rcases List.mem_cons.mp h with rfl | h
          · exact ⟨_, rfl, by simpa using hown⟩
          · exact ih h

/-- Unless an edge case says so, the imports are the names that are needed from other files, each
one once. -/
theorem value_resolveImports {namespaceName text : String} {exports : List Export}
    {edgeCase : Option EdgeCase} (hoverride : edgeCase.bind (·.importsOverride) = none)
    (himports : (edgeCase.map (·.imports)).getD [] = []) :
    (resolveImports namespaceName exports edgeCase text).value =
      unique (Import.external (exports.map (·.publicName))
        (Import.candidates namespaceName text.toList)).value := by
  rw [resolveImports, hoverride]
  -- what was found is kept closed: opening it runs the patterns on the text
  generalize Import.external _ _ = found
  simp only [himports, List.append_nil]
  rfl

/-- A file does not import what it exports, unless an edge case asks for imports. -/
theorem importedName_notMem_own {namespaceName item text : String} {exports : List Export}
    {edgeCase : Option EdgeCase} (hoverride : edgeCase.bind (·.importsOverride) = none)
    (himports : (edgeCase.map (·.imports)).getD [] = [])
    (h : Import.symbol item ∈ (resolveImports namespaceName exports edgeCase text).value) :
    importedName item ∉ exports.map (·.publicName) := by
  rw [value_resolveImports hoverride himports] at h
  obtain ⟨found, heq, hown⟩ := exists_symbol_of_mem_external (mem_unique.mp h)
  obtain rfl := Import.symbol.inj heq
  exact hown

end ScriptModules
