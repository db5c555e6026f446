import ScriptModules.Proofs.Import.RoundTrip

/-!
# The layout of import blocks

An import block has one statement for each specifier, in the order in which the specifiers are first
needed. Each statement lists the items that are imported under its specifier, in the order and as
often as they are needed: one item on the line of the statement, several on lines of their own. An
item that nobody exports is left out and reported, and nothing else is.
-/

namespace ScriptModules

/-- The text of an import statement. A single item stands on the line of the statement, and of
several items each stands on a line of its own. -/
def importedText (specifier : String) (items : List String) : String :=
  "import \x7b" ++ (if items.length = 1 then " " else "\n\t") ++ ",\n\t".intercalate items ++
    (if items.length = 1 then " " else "\n") ++ "\x7d from '" ++ specifier ++ "'"

/-- What stands at the start of every item can stand between the items instead. -/
theorem intercalate_map_append (sep start : String) {items : List String} (h : items ≠ []) :
    sep.intercalate (items.map (start ++ ·)) = start ++ (sep ++ start).intercalate items := by
  induction items with
  | nil => exact absurd rfl h
  | cons item rest ih =>
      cases rest with
      | nil => simp
      | cons next rest =>
          have hrest := ih (by simp)
          rw [List.map_cons] at hrest
          rw [List.map_cons, List.map_cons, String.intercalate_cons_cons, hrest,
            String.intercalate_cons_cons]
          simp [String.append_assoc]

/-- Both ways to write a list in braces give the text of a statement. -/
theorem importStatement_eq {specifier : String} {items : List String} (h : items ≠ []) :
    importStatement (specifier, items) = importedText specifier items := by
  obtain ⟨item, rest, rfl⟩ := List.exists_cons_of_ne_nil h
  rw [importStatement, importedText, ← String.toList_inj]
  cases rest with
  | nil => simp [braced]
  | cons next rest =>
      have hbraced : braced "import" (item :: next :: rest) =
          "import \x7b\n" ++ ("\t" ++ ",\n\t".intercalate (item :: next :: rest)) ++ "\n\x7d" :=
        congrArg (fun lines => "import \x7b\n" ++ lines ++ "\n\x7d")
          (intercalate_map_append ",\n" "\t" h)
      have hseveral : (item :: next :: rest).length ≠ 1 := by simp
      rw [hbraced, if_neg hseveral, if_neg hseveral]
      simp

section Groups

variable {cwd importer : String} {exportMap : ExportMap} {imports : List Import}

/-- The specifiers of imports, in the order in which they are first needed. -/
def specifiersOf (cwd importer : String) (exportMap : ExportMap) (imports : List Import) :
    List String :=
  unique (imports.filterMap (·.specifier? cwd importer exportMap))

/-- The items that are imported under a specifier, in order. -/
def itemsUnder (cwd importer : String) (exportMap : ExportMap) (imports : List Import)
    (specifier : String) :
    List String :=
  (imports.filter (·.specifier? cwd importer exportMap = some specifier)).map Import.item

theorem mem_specifiersOf {specifier : String} :
    specifier ∈ specifiersOf cwd importer exportMap imports ↔
      ∃ i ∈ imports, i.specifier? cwd importer exportMap = some specifier := by
  rw [specifiersOf, mem_unique, List.mem_filterMap]

theorem specifiersOf_eq_nil :
    specifiersOf cwd importer exportMap imports = [] ↔
      ∀ i ∈ imports, i.specifier? cwd importer exportMap = none := by
  simp only [List.eq_nil_iff_forall_not_mem, mem_specifiersOf, not_exists, not_and,
    Option.eq_none_iff_forall_ne_some]
  exact ⟨fun h i hi s => h s i hi, fun h s i hi => h i hi s⟩

theorem itemsUnder_ne_nil {specifier : String}
    (h : specifier ∈ specifiersOf cwd importer exportMap imports) :
    itemsUnder cwd importer exportMap imports specifier ≠ [] := by
  obtain ⟨i, hi, hspecifier⟩ := mem_specifiersOf.mp h
  apply List.ne_nil_of_mem (a := i.item)
  exact List.mem_map_of_mem (List.mem_filter.mpr ⟨hi, by simpa using hspecifier⟩)

/-- Imports are grouped under their specifiers. -/
theorem groupImports_eq {groups : ImportGroups}
    (h : (groupImports cwd importer exportMap imports []).run.value = .ok groups) :
    groups = (specifiersOf cwd importer exportMap imports).map fun s =>
      (s, itemsUnder cwd importer exportMap imports s) := by
  have heq : groups = .ofItems (writtenItems cwd importer exportMap imports) :=
    @groupImports_ofItems _ _ _ _ [] _ h
  simp only [ImportGroups.ofItems, map_fst_writtenItems, map_snd_filter_writtenItems] at heq
  exact heq

/-- Imports are grouped only if each of them has a specifier or is exported by nobody. -/
theorem exists_specifierOf {groups result : ImportGroups}
    (h : (groupImports cwd importer exportMap imports groups).run.value = .ok result) {i : Import}
    (hi : i ∈ imports) :
    ∃ found, specifierOf cwd importer exportMap i = .ok found := by
  induction imports generalizing groups with
  | nil => simp at hi
  | cons j imports ih =>
      obtain ⟨found, hfound, hrest⟩ := Work.value_bind_eq_ok.mp h
      rcases List.mem_cons.mp hi with rfl | hi
      · exact ⟨found, hfound⟩
      · cases found with
        | some s => exact ih hrest hi
        | none =>
            obtain ⟨-, -, hrest⟩ := Work.value_bind_eq_ok.mp hrest
            exact ih hrest hi

/-- An import has no specifier exactly if it names a symbol that nobody exports. -/
theorem specifier?_eq_none_iff {i : Import} {found : Option String}
    (h : specifierOf cwd importer exportMap i = .ok found) :
    i.specifier? cwd importer exportMap = none ↔
      ∃ item, i = .symbol item ∧ exportMap.owner? (importedName item) = none := by
  rw [specifier?_of_specifierOf h]
  cases i with
  | explicit name specifier =>
      obtain rfl : some specifier = found := Except.ok.inj h
      simp
  | symbol item =>
      rw [specifierOf] at h
      cases howner : exportMap.owner? (importedName item) with
      | none =>
          rw [howner] at h
          obtain rfl : none = found := Except.ok.inj h
          simp [howner]
      | some exporter =>
          rw [howner] at h
          obtain ⟨specifier, -, h⟩ := bind_eq_ok.mp h
          obtain rfl : some specifier = found := Except.ok.inj h
          simp [howner]

/-- While imports are grouped, those without a specifier are reported, and nothing else is. -/
theorem notices_groupImports {groups result : ImportGroups}
    (h : (groupImports cwd importer exportMap imports groups).run.value = .ok result) :
    (groupImports cwd importer exportMap imports groups).run.notices =
      (imports.filter (·.specifier? cwd importer exportMap = none)).map fun i =>
        .missingExport i.item importer := by
  induction imports generalizing groups with
  | nil => rfl
  | cons i imports ih =>
      obtain ⟨found, hfound, hrest⟩ := Work.value_bind_eq_ok.mp h
      have hspecifier := specifier?_of_specifierOf hfound
      rw [groupImports, Work.notices_bind_of_ok hfound]
      cases found with
      | some s =>
          rw [List.filter_cons_of_neg (by simp [hspecifier])]
          exact ih hrest
      | none =>
          obtain ⟨_, htold, hrest⟩ := Work.value_bind_eq_ok.mp hrest
          simp only [Work.notices_bind_of_ok htold]
          rw [List.filter_cons_of_pos (by simp [hspecifier]), List.map_cons, ← ih hrest]
          rfl

theorem importStatements_eq (groups : ImportGroups) :
    importStatements groups =
      String.join (groups.map (importStatement · ++ "\n")) ++
        (if groups = [] then "" else "\n") := by
  rw [← String.toList_inj]
  by_cases h : groups = []
  · simp [h, importStatements]
  · rw [toList_importStatements h, if_neg h]
    simp [List.flatMap_map]

/-- Statements end with a blank line, if there are any. -/
theorem importStatements_ends {groups : ImportGroups} (h : groups ≠ []) :
    ∃ text, importStatements groups = text ++ "\n\n" :=
  ⟨_, if_neg (by simpa using h)⟩

theorem importStatements_eq_empty {groups : ImportGroups} :
    importStatements groups = "" ↔ groups = [] := by
  constructor
  · intro hempty
    by_contra hne
    obtain ⟨text, htext⟩ := importStatements_ends hne
    have hlength := congrArg String.length (htext.symm.trans hempty)
    simp at hlength
  · rintro rfl
    rfl

/-- The import block of a file has one statement for each specifier, in the order in which the
specifiers are first needed. A statement lists what is imported under its specifier, in order. Left
out are exactly the symbols that nobody exports; these are reported in order, and nothing else is.
The block is empty if no import has a specifier, and else ends with a blank line. -/
theorem importBlock_layout {block : String}
    (h : (importBlock cwd importer exportMap imports).run.value = .ok block) :
    block = String.join ((specifiersOf cwd importer exportMap imports).map fun s =>
        importedText s (itemsUnder cwd importer exportMap imports s) ++ "\n") ++
        (if specifiersOf cwd importer exportMap imports = [] then "" else "\n") ∧
      (∀ i ∈ imports, i.specifier? cwd importer exportMap = none ↔
        ∃ item, i = .symbol item ∧ exportMap.owner? (importedName item) = none) ∧
      (importBlock cwd importer exportMap imports).run.notices =
        (imports.filter (·.specifier? cwd importer exportMap = none)).map
          (fun i => .missingExport i.item importer) ∧
      (block = "" ↔ ∀ i ∈ imports, i.specifier? cwd importer exportMap = none) ∧
      (block ≠ "" → ∃ text, block = text ++ "\n\n") := by
  obtain ⟨groups, hgroups, hblock⟩ := Work.value_bind_eq_ok.mp h
  obtain rfl : importStatements groups = block := Except.ok.inj hblock
  have heq := groupImports_eq hgroups
  have hnil : groups = [] ↔ specifiersOf cwd importer exportMap imports = [] := by
    rw [heq, List.map_eq_nil_iff]
  have hstatements : groups.map (importStatement · ++ "\n") =
      (specifiersOf cwd importer exportMap imports).map fun s =>
        importedText s (itemsUnder cwd importer exportMap imports s) ++ "\n" := by
    rw [heq, List.map_map]
    refine List.map_congr_left fun s hs => ?_
    exact congrArg (· ++ "\n") (importStatement_eq (itemsUnder_ne_nil hs))
  refine ⟨?_, fun i hi => ?_, ?_, ?_, fun hne => ?_⟩
  · rw [importStatements_eq, hstatements]
    simp only [hnil]
  · obtain ⟨found, hfound⟩ := exists_specifierOf hgroups hi
    exact specifier?_eq_none_iff hfound
  · rw [importBlock, Work.notices_bind_of_ok hgroups, notices_groupImports hgroups]
    exact List.append_nil _
  · rw [importStatements_eq_empty, hnil, specifiersOf_eq_nil]
  · exact importStatements_ends (mt importStatements_eq_empty.mpr hne)

/-- Two sources in turns, one of them for a renamed item and one given outright, and a name that
nobody exports. -/
theorem importBlock_layout_in_turns :
    ∃ block,
      (importBlock "/w" "out/app/main.js" [("Map", "out/lib/map.js"), ("Set", "out/lib/map.js")]
        [.symbol "Map as M", .explicit "x" "pkg", .symbol "gone", .symbol "Set"]).run.value =
          .ok block ∧
      block = "import \x7b\n\tMap as M,\n\tSet\n\x7d from '../lib/map.js'\n" ++
        "import \x7b x \x7d from 'pkg'\n\n" ∧
      (importBlock "/w" "out/app/main.js" [("Map", "out/lib/map.js"), ("Set", "out/lib/map.js")]
        [.symbol "Map as M", .explicit "x" "pkg", .symbol "gone", .symbol "Set"]).run.notices =
        [.missingExport "gone" "out/app/main.js"] := by
  have hrun : ∃ block,
      (importBlock "/w" "out/app/main.js" [("Map", "out/lib/map.js"), ("Set", "out/lib/map.js")]
      [.symbol "Map as M", .explicit "x" "pkg", .symbol "gone", .symbol "Set"]).run.value =
        .ok block := ⟨_, rfl⟩
  obtain ⟨block, hblock⟩ := hrun
  obtain ⟨htext, -, hnotices, -⟩ := importBlock_layout hblock
  refine ⟨block, hblock, htext.trans ?_, hnotices.trans ?_⟩
  · decide +kernel
  · decide +kernel

end Groups

end ScriptModules
