import ScriptModules.Block.Basic
import ScriptModules.Proofs.FirstOccurrence
import ScriptModules.Proofs.Work

/-!
# The order of import groups

Imports are grouped by specifier. The groups stand in the order in which their specifiers are first
needed, and the items of a group in the order of the imports. Adding one item to the groups keeps
this order.
-/

namespace ScriptModules

/-- The specifier of an import that is written; a symbol has one if somebody exports it. -/
def Import.specifier? (cwd importer : String) (exportMap : ExportMap) : Import → Option String
  | .explicit _ specifier => some specifier
  | .symbol item =>
    (exportMap.owner? (importedName item)).bind fun exporter =>
      (relativeSpecifier cwd importer exporter).toOption

namespace ImportGroups

/-- Items with their specifiers, grouped in order of first use. -/
def ofItems (items : List (String × String)) : ImportGroups :=
  (unique (items.map (·.1))).map fun s => (s, (items.filter (·.1 = s)).map (·.2))

/-- The first of several groups takes an item with its specifier. -/
theorem add_map_of_mem {keys : List String} (hkeys : keys.Nodup) (f : String → List String)
    {specifier : String} (h : specifier ∈ keys) (item : String) :
    add (keys.map fun s => (s, f s)) specifier item =
      keys.map fun s => (s, if s = specifier then f s ++ [item] else f s) := by
  induction keys with
  | nil => simp at h
  | cons key keys ih =>
      obtain ⟨hkey, hkeys⟩ := List.nodup_cons.mp hkeys
      rw [List.map_cons, List.map_cons, add]
      by_cases heq : key = specifier
      · subst heq
        rw [if_pos rfl, if_pos rfl, List.cons.injEq]
        refine ⟨rfl, List.map_congr_left fun s hs => ?_⟩
        rw [if_neg]
        rintro rfl
        exact hkey hs
      · rw [if_neg heq, if_neg heq, ih hkeys ((List.mem_cons.mp h).resolve_left (Ne.symm heq))]

/-- A new specifier opens a group after all others. -/
theorem add_map_of_not_mem {keys : List String} (f : String → List String) {specifier : String}
    (h : specifier ∉ keys) (item : String) :
    add (keys.map fun s => (s, f s)) specifier item =
      (keys.map fun s => (s, f s)) ++ [(specifier, [item])] := by
  induction keys with
  | nil => rfl
  | cons key keys ih =>
      rw [List.mem_cons, not_or] at h
      rw [List.map_cons, add, if_neg (Ne.symm h.1), ih h.2, List.cons_append]

/-- Adding an item to the groups of some items groups them with that item. -/
theorem add_ofItems (items : List (String × String)) (specifier item : String) :
    (ofItems items).add specifier item = ofItems (items ++ [(specifier, item)]) := by
  have hfilter : ∀ s, ((items ++ [(specifier, item)]).filter (·.1 = s)).map (·.2) =
      if s = specifier then (items.filter (·.1 = s)).map (·.2) ++ [item]
        else (items.filter (·.1 = s)).map (·.2) := by
    intro s
    by_cases hs : s = specifier
    · simp [hs]
    · simp [hs, Ne.symm hs]
  rw [ofItems, ofItems, List.map_append, List.map_singleton]
  simp only [hfilter]
  by_cases hmem : specifier ∈ items.map (·.1)
  · rw [add_map_of_mem (nodup_unique _) _ (mem_unique.mpr hmem), unique_append_cons_of_mem hmem,
      List.append_nil]
  · have hnone : items.filter (·.1 = specifier) = [] := by
      rw [List.filter_eq_nil_iff]
      intro pair hpair heq
      exact hmem (List.mem_map.mpr ⟨pair, hpair, by simpa using heq⟩)
    rw [add_map_of_not_mem _ (fun h => hmem (mem_unique.mp h)), unique_append_singleton hmem,
      List.map_append, List.map_singleton, if_pos rfl, hnone, List.map_nil, List.nil_append]
    congr 1
    refine List.map_congr_left fun s hs => ?_
    rw [if_neg]
    rintro rfl
    exact hmem (mem_unique.mp hs)

end ImportGroups

variable {cwd importer : String} {exportMap : ExportMap}

theorem specifier?_of_specifierOf {i : Import} {found : Option String}
    (h : specifierOf cwd importer exportMap i = .ok found) :
    i.specifier? cwd importer exportMap = found := by
  cases i with
  | explicit name specifier => exact Except.ok.inj h
  | symbol item =>
      rw [specifierOf] at h
      rw [Import.specifier?]
      cases howner : exportMap.owner? (importedName item) with
      | none =>
          rw [howner] at h
          exact Except.ok.inj h
      | some exporter =>
          rw [howner] at h
          obtain ⟨specifier, hspecifier, h⟩ := bind_eq_ok.mp h
          obtain rfl : some specifier = found := Except.ok.inj h
          rw [Option.bind_some, hspecifier]
          rfl

/-- The items that are written, with their specifiers. -/
def writtenItems (cwd importer : String) (exportMap : ExportMap) (imports : List Import) :
    List (String × String) :=
  imports.filterMap fun i => (i.specifier? cwd importer exportMap).map (·, i.item)

theorem map_fst_writtenItems (imports : List Import) :
    (writtenItems cwd importer exportMap imports).map (·.1) =
      imports.filterMap (·.specifier? cwd importer exportMap) := by
  simp [writtenItems, List.map_filterMap, Function.comp_def]

theorem map_snd_filter_writtenItems (imports : List Import) (specifier : String) :
    ((writtenItems cwd importer exportMap imports).filter (·.1 = specifier)).map (·.2) =
      (imports.filter (·.specifier? cwd importer exportMap = some specifier)).map Import.item := by
  induction imports with
  | nil => rfl
  | cons i imports ih =>
      rw [writtenItems] at ih ⊢
      rw [List.filterMap_cons]
      cases hspecifier : i.specifier? cwd importer exportMap with
      | none => simpa [hspecifier] using ih
      | some s => by_cases hs : s = specifier <;> simpa [hspecifier, hs] using ih

theorem groupImports_ofItems {imports : List Import} {items : List (String × String)}
    {result : ImportGroups}
    (h : (groupImports cwd importer exportMap imports (.ofItems items)).run.value = .ok result) :
    result = .ofItems (items ++ writtenItems cwd importer exportMap imports) := by
  induction imports generalizing items with
  | nil =>
      rw [writtenItems, List.filterMap_nil, List.append_nil]
      exact (Except.ok.inj h).symm
  | cons i imports ih =>
      obtain ⟨found, hfound, hrest⟩ := Work.value_bind_eq_ok.mp h
      rw [Work.value_result] at hfound
      have hspecifier := specifier?_of_specifierOf hfound
      cases found with
      | some s =>
          simp only [ImportGroups.add_ofItems] at hrest
          rw [ih hrest, writtenItems, writtenItems, List.filterMap_cons, hspecifier]
          simp
      | none =>
          obtain ⟨-, -, hrest⟩ := Work.value_bind_eq_ok.mp hrest
          rw [ih hrest, writtenItems, writtenItems, List.filterMap_cons, hspecifier]
          rfl

end ScriptModules
