import ScriptModules.Import.Resolve
import ScriptModules.Proofs.Block.Braced
import ScriptModules.Proofs.Import.Clause
import ScriptModules.Proofs.Import.Order

/-!
# Reading import blocks back

The statements of an import block stand on lines of their own. A scan for import clauses finds the
clause of each statement, finds nothing in the source after it, and gets out of the clause the items
that were put in. So the imports of a block are read back group by group.
-/

namespace ScriptModules

open Pattern Pattern.Node Text Statement

/-- An item that an import statement can list: an identifier, or one that is renamed. -/
def IsImportItem (item : List Char) : Prop :=
  IsIdentifier item ∨ ∃ name new, IsIdentifier name ∧ IsIdentifier new ∧
    item = name ++ renamer ++ new

namespace IsImportItem

variable {item : List Char}

theorem isListItem (h : IsImportItem item) : IsListItem item := by
  rcases h with h | ⟨name, new, hname, hnew, rfl⟩
  · exact h.isListItem
  · simpa [renamer] using isListItem_renaming hname hnew

theorem listed_of_mem (h : IsImportItem item) {x : Char} (hx : x ∈ item) :
    listed.contains x = true := by
  have hident : ∀ {t : List Char}, IsIdentifier t → x ∈ t → listed.contains x = true := by
    intro t ht hx
    simp [contains_listed, ht.2 x hx]
  rcases h with h | ⟨name, new, hname, hnew, rfl⟩
  · exact hident h hx
  · rcases List.mem_append.mp hx with hx | hx
    · rcases List.mem_append.mp hx with hx | hx
      · exact hident hname hx
      · exact List.all_eq_true.mp (by decide : renamer.all listed.contains = true) x hx
    · exact hident hnew hx

end IsImportItem

section Clauses

variable {inside : List Char} {c : Cursor}

theorem matchAt_eq_none_of_char {n : Node} {x : Char} (h : ∀ y ∈ c.after.head?, y ≠ x) :
    ((char x).seq n).matchAt false c = none := by
  rw [matchAt_eq_none_iff, List.eq_nil_iff_forall_not_mem]
  intro d hd
  obtain ⟨e, he, -⟩ := mem_ways_seq.mp hd
  obtain ⟨⟨r, hr⟩, -⟩ := mem_ways_char.mp he
  exact h x (by rw [← Cursor.after_fresh, ← hr]; rfl) rfl

/-- Where a character does not occur, a pattern that starts with it removes nothing. -/
theorem remove_eq_self {n : Node} {x : Char} {text : List Char} (h : x ∉ text) :
    ((char x).seq n).remove text = text := by
  refine replace_eq_self (advances_seq_left (advances_set _)) fun a b hab =>
    matchAt_eq_none_of_char ?_
  have hafter : ((Cursor.start text).beyond a).after = b := Cursor.after_beyond hab
  rw [hafter]
  rintro y hy rfl
  exact h (hab ▸ List.mem_append_right a (List.mem_of_mem_head? hy))

/-- A clause that is one list holds the items between its braces. -/
theorem itemsOfClause_list (hinside : '\x7d' ∉ inside) (hstar : '*' ∉ inside) :
    Import.itemsOfClause ('\x7b' :: (inside ++ ['\x7d', ' '])) =
      ((splitOn ',' inside).map squeeze).filter (!·.isEmpty) := by
  have hn : braceList.Advances := advances_seq_left (advances_set _)
  generalize hclause : '\x7b' :: (inside ++ ['\x7d', ' ']) = clause
  have hnamespace : namespaceImport.remove clause = clause :=
    remove_eq_self (by simpa [← hclause] using hstar)
  have hstart : (Cursor.start clause).fresh.after = '\x7b' :: (inside ++ '\x7d' :: [' ']) :=
    hclause.symm
  obtain ⟨d, htakes, hafter, hgroups, -⟩ := takes_braceList hstart hinside
  have hspace : braceList.matchAt false d = none := matchAt_eq_none_of_char (by simp [hafter])
  have hnext : (d.beyond [' ']).after = [] := Cursor.after_beyond hafter
  have hend : braceList.matchAt false (d.beyond [' ']) = none :=
    matchAt_eq_none_of_char (by simp [hnext])
  have hremove : braceList.remove clause = [' '] := by
    rw [remove, replace_eq_replacedAt hn, replacedAt_found hn htakes.matchAt,
      replacedAt_skipped hn hspace hafter, replacedAt_finished hend hnext]
    rfl
  have hlists : braceList.groupTexts 1 clause = [inside] := by
    rw [groupTexts, allMatches_eq_matchesAt hn, matchesAt_found hn htakes.matchAt,
      matchesAt_skipped hn hspace hafter, matchesAt_finished hend hnext, List.map_singleton,
      Match.group_eq_lookup hgroups 0]
    rfl
  rw [Import.itemsOfClause]
  simp only [hnamespace, hremove, hlists]
  simp [words, isBlank]

/-- The items of the import clauses from a cursor on. -/
def importsAt (c : Cursor) : List (List Char) :=
  (importClause.matchesAt c).flatMap fun m => Import.itemsOfClause (m.group 1)

theorem advances_importClause : importClause.Advances :=
  advances_seq_left (advances_word (by decide))

theorem explicitItems_eq_importsAt (text : List Char) :
    Import.explicitItems text = importsAt (.start text) := by
  rw [Import.explicitItems, groupTexts, allMatches_eq_matchesAt advances_importClause,
    List.flatMap_map, importsAt]

/-- An import starts with its word and a blank. -/
theorem matchAt_importClause_eq_none
    (h : ∀ x, isBlank x = true → ¬"import".toList ++ [x] <+: c.after) :
    importClause.matchAt false c = none := by
  rw [matchAt_eq_none_iff, List.eq_nil_iff_forall_not_mem]
  intro d hd
  obtain ⟨e, he, hd⟩ := mem_ways_seq.mp hd
  obtain ⟨⟨r, hr⟩, rfl⟩ := mem_ways_word.mp he
  obtain ⟨e, he, -⟩ := mem_ways_seq.mp hd
  obtain ⟨blank, hne, hpre, hblank, -⟩ := mem_ways_oneOrMore_set.mp he
  obtain ⟨x, blank, rfl⟩ := List.exists_cons_of_ne_nil hne
  rw [Cursor.after_beyond hr.symm] at hpre
  refine h x (by simpa using hblank x (by simp)) ?_
  rw [← Cursor.after_fresh, ← hr]
  exact (List.prefix_append_right_inj _).mpr ((List.prefix_append [x] blank).trans hpre)

theorem matchAt_importClause_of_head (h : ∀ x ∈ c.after.head?, x ≠ 'i') :
    importClause.matchAt false c = none := by
  apply matchAt_importClause_eq_none
  rintro x - ⟨r, hr⟩
  exact h 'i' (by rw [← hr]; rfl) rfl

theorem importsAt_nil (h : c.after = []) : importsAt c = [] := by
  have hnone : importClause.matchAt false c = none := matchAt_importClause_of_head (by simp [h])
  rw [importsAt, matchesAt_finished hnone h, List.flatMap_nil]

theorem importsAt_skipped {x : Char} {rest : List Char} (h : c.after = x :: rest) (hx : x ≠ 'i') :
    importsAt c = importsAt (c.beyond [x]) := by
  have hnone : importClause.matchAt false c = none :=
    matchAt_importClause_of_head (by simpa [h] using hx)
  rw [importsAt, matchesAt_skipped advances_importClause hnone h, importsAt]

/-- No import starts in a text without blanks that ends in a quote. -/
theorem importsAt_quoted {text rest : List Char} (h : c.after = text ++ rest)
    (hsolid : ∀ x ∈ text, isBlank x = false) (hlast : text.getLast? = some '\x27') :
    importsAt c = importsAt (c.beyond text) := by
  rw [importsAt, importsAt, matchesAt_skips advances_importClause h]
  rintro a x b rfl
  have hafter : (c.beyond a).after = x :: b ++ rest :=
    Cursor.after_beyond (by rw [h, List.append_assoc])
  have hquote : '\x27' ∈ x :: b := by
    rw [List.getLast?_append_cons] at hlast
    exact List.mem_of_getLast? hlast
  refine matchAt_importClause_eq_none fun y hy hpre => ?_
  rw [hafter] at hpre
  -- The word and its blank have no quote, and the text up to the quote has no blank.
  rcases List.prefix_or_prefix_of_prefix hpre (List.prefix_append (x :: b) rest) with hword | hword
  · have hmem : y ∈ a ++ x :: b := List.mem_append_right _ (hword.subset (by simp))
    simp [hsolid y hmem] at hy
  · rcases List.mem_append.mp (hword.subset hquote) with hmem | hmem
    · exact absurd hmem (by decide)
    · obtain rfl := List.mem_singleton.mp hmem
      simp [isBlank] at hy

/-- The source of a statement holds no import. -/
theorem importsAt_source {source rest : List Char}
    (h : c.after = ' ' :: '\x27' :: (source ++ '\x27' :: '\n' :: rest))
    (hsource : ∀ x ∈ source, isBlank x = false) :
    ∃ d, d.after = rest ∧ importsAt c = importsAt d := by
  have hquoted : (c.beyond [' ']).after = ('\x27' :: (source ++ ['\x27'])) ++ '\n' :: rest :=
    Cursor.after_beyond (by simp [h])
  have hsolid : ∀ x ∈ '\x27' :: (source ++ ['\x27']), isBlank x = false := by
    have hquote : isBlank '\x27' = false := by decide
    simpa [or_imp, forall_and, hquote] using hsource
  have hfeed := Cursor.after_beyond hquoted
  refine ⟨_, Cursor.after_beyond (s := ['\n']) hfeed, ?_⟩
  have hlast : ('\x27' :: (source ++ ['\x27'])).getLast? = some '\x27' := by
    rw [← List.cons_append, List.getLast?_append_cons]
    rfl
  rw [importsAt_skipped h (by decide), importsAt_quoted hquoted hsolid hlast,
    importsAt_skipped hfeed (by decide)]

end Clauses

section Blocks

variable {c : Cursor}

/-- A group whose statement can be read back. -/
structure IsReadable (group : String × List String) : Prop where
  items_ne_nil : group.2 ≠ []
  items : ∀ item ∈ group.2, IsImportItem item.toList
  source : ∀ x ∈ group.1.toList, isBlank x = false

/-- The statement of a group is read as its items, and nothing after its line is taken. -/
theorem importsAt_statement {group : String × List String} {rest : List Char}
    (hgroup : IsReadable group) (h : c.after = (importStatement group).toList ++ '\n' :: rest) :
    ∃ d, d.after = rest ∧ importsAt c = group.2.map String.toList ++ importsAt d := by
  have hitems : ∀ item ∈ group.2, IsListItem item.toList :=
    fun item hitem => (hgroup.items item hitem).isListItem
  obtain ⟨inside, htext, hne, hinside, hread⟩ :=
    exists_toList_braced "import" hgroup.items_ne_nil hitems
  have hlisted : ∀ x ∈ inside, listed.contains x = true := by
    intro x hx
    rcases hinside x hx with hblank | rfl | ⟨item, hitem, hmem⟩
    · simp [contains_listed, hblank]
    · decide
    · exact (hgroup.items item hitem).listed_of_mem hmem
  have hstar : '*' ∉ inside := fun hmem => absurd (hlisted _ hmem) (by decide)
  have hafter : c.fresh.after = "import".toList ++ (' ' :: (('\x7b' :: (inside ++ ['\x7d'])) ++
      ' ' ::
        ("from".toList ++ (' ' :: '\x27' :: (group.1.toList ++ '\x27' :: '\n' :: rest))))) := by
    rw [Cursor.after_fresh, h]
    simp [importStatement, htext]
  obtain ⟨d, htakes, hrest, hgroups⟩ := takes_importClause hafter hne hlisted
  obtain ⟨e, hend, hsource⟩ := importsAt_source hrest hgroup.source
  refine ⟨e, hend, ?_⟩
  have hclause : Match.group ⟨c.fresh, d⟩ 1 = '\x7b' :: (inside ++ ['\x7d', ' ']) := by
    rw [Match.group_eq_lookup hgroups 0]
    rfl
  have hfilter : (group.2.map String.toList).filter (!·.isEmpty) = group.2.map String.toList := by
    rw [List.filter_eq_self]
    intro item hitem
    obtain ⟨i, hi, rfl⟩ := List.mem_map.mp hitem
    simpa using (hitems i hi).ne_nil
  rw [importsAt, matchesAt_found advances_importClause htakes.matchAt, List.flatMap_cons, hclause,
    itemsOfClause_list (brace_not_mem_inside hitems hinside) hstar, hread, hfilter, ← hsource]
  rfl

/-- The statements of groups, each on its line, are read back in order. -/
theorem importsAt_statements {groups : ImportGroups} {rest : List Char}
    (hgroups : ∀ g ∈ groups, IsReadable g)
    (h : c.after = (groups.flatMap fun g => (importStatement g).toList ++ ['\n']) ++ rest) :
    ∃ d, d.after = rest ∧ importsAt c = (groups.flatMap fun g => g.2.map String.toList) ++
      importsAt d := by
  induction groups generalizing c with
  | nil => exact ⟨c, h, rfl⟩
  | cons g groups ih =>
      have htext : c.after = (importStatement g).toList ++
          '\n' :: ((groups.flatMap fun g => (importStatement g).toList ++ ['\n']) ++ rest) := by
        simpa using h
      obtain ⟨d, hafter, hread⟩ := importsAt_statement (hgroups g (by simp)) htext
      obtain ⟨e, hend, hrest⟩ := ih (fun g hg => hgroups g (List.mem_cons_of_mem _ hg)) hafter
      exact ⟨e, hend, by rw [hread, hrest, List.flatMap_cons, List.append_assoc]⟩

theorem toList_importStatements {groups : ImportGroups} (h : groups ≠ []) :
    (importStatements groups).toList =
      (groups.flatMap fun g => (importStatement g).toList ++ ['\n']) ++ ['\n'] := by
  have hlines : ∀ l : List (List Char), l ≠ [] →
      ['\n'].intercalate l ++ ['\n'] = l.flatMap (· ++ ['\n']) := by
    intro l hl
    induction l with
    | nil => simp at hl
    | cons a l ih => cases l <;> simp_all
  have hgroups : groups.map (fun g => (importStatement g).toList) ≠ [] := by simpa using h
  rw [importStatements, if_neg (by simpa using h), String.toList_append, String.toList_intercalate,
    List.map_map, ← List.flatMap_map (fun g => (importStatement g).toList) (· ++ ['\n']),
    ← hlines _ hgroups, List.append_assoc]
  rfl

/-- The statements of groups are read as the items of the groups. -/
theorem explicitItems_importStatements {groups : ImportGroups}
    (hgroups : ∀ g ∈ groups, IsReadable g) :
    Import.explicitItems (importStatements groups).toList = groups.flatMap fun g =>
      g.2.map String.toList := by
  rw [explicitItems_eq_importsAt]
  by_cases hne : groups = []
  · subst hne
    exact importsAt_nil rfl
  · obtain ⟨d, hafter, hread⟩ :=
      importsAt_statements (c := .start (importStatements groups).toList) hgroups
      (toList_importStatements hne)
    rw [hread, importsAt_skipped hafter (by decide), importsAt_nil (Cursor.after_beyond hafter),
      List.append_nil]

end Blocks

/-- The import block of a file is read as the items that are written in it: the items of one
specifier after those of another, in the order in which the specifiers are first needed. -/
theorem explicitItems_importBlock {cwd importer block : String} {exportMap : ExportMap}
    {imports : List Import} (hitems : ∀ i ∈ imports, IsImportItem i.item.toList)
    (hsources : ∀ i ∈ imports, ∀ s ∈ i.specifier? cwd importer exportMap, ∀ x ∈ s.toList,
      isBlank x = false)
    (hblock : (importBlock cwd importer exportMap imports).run.value = .ok block) :
    (Import.explicitItems block.toList).map String.ofList =
      (unique (imports.filterMap (·.specifier? cwd importer exportMap))).flatMap fun s =>
        (imports.filter (·.specifier? cwd importer exportMap = some s)).map Import.item := by
  obtain ⟨groups, hgroups, hblock⟩ := Work.value_bind_eq_ok.mp hblock
  obtain rfl : importStatements groups = block := Except.ok.inj hblock
  have heq : groups = .ofItems (writtenItems cwd importer exportMap imports) :=
    @groupImports_ofItems _ _ _ _ [] _ hgroups
  simp only [ImportGroups.ofItems, map_fst_writtenItems, map_snd_filter_writtenItems] at heq
  have hreadable : ∀ g ∈ groups, IsReadable g := by
    intro g hg
    obtain ⟨s, hs, rfl⟩ := List.mem_map.mp (heq ▸ hg)
    obtain ⟨i, hi, hspecifier⟩ := List.mem_filterMap.mp (mem_unique.mp hs)
    refine ⟨?_, ?_, hsources i hi s hspecifier⟩
    · apply List.ne_nil_of_mem (a := i.item)
      exact List.mem_map_of_mem (List.mem_filter.mpr ⟨hi, by simpa using hspecifier⟩)
    · intro item hitem
      obtain ⟨j, hj, rfl⟩ := List.mem_map.mp hitem
      exact hitems j (List.mem_filter.mp hj).1
  rw [explicitItems_importStatements hreadable, List.map_flatMap, heq, List.flatMap_map]
  simp [Function.comp_def]

/-- Names that two files export. -/
def neededExports : ExportMap :=
  [("Map", "out/lib/map.js"), ("Set", "out/lib/map.js"), ("go", "out/app/go.js")]

/-- Imports of three sources, in turns, and of a name that nobody exports. -/
def neededImports : List Import :=
  [.symbol "Map as M", .explicit "import" "pkg/core", .symbol "from", .symbol "go", .symbol "Set",
    .explicit "x" "pkg/core"]

theorem explicitItems_importBlock_in_turns :
    ∃ block, (importBlock "/w" "out/app/main.js" neededExports neededImports).run.value =
      .ok block ∧
      (Import.explicitItems block.toList).map String.ofList =
        ["Map as M", "Set", "import", "x", "go"] := by
  have hitems : ∀ i ∈ neededImports, IsImportItem i.item.toList := by
    intro i hi
    simp only [neededImports, List.mem_cons, List.not_mem_nil, or_false] at hi
    rcases hi with rfl | rfl | rfl | rfl | rfl | rfl
    · exact .inr ⟨['M', 'a', 'p'], ['M'], by decide, by decide, by decide⟩
    all_goals exact .inl (by decide)
  have hsources : ∀ i ∈ neededImports, ∀ s ∈ i.specifier? "/w" "out/app/main.js" neededExports,
      ∀ x ∈ s.toList, isBlank x = false := by
    have hall : neededImports.all (fun i => (i.specifier? "/w" "out/app/main.js" neededExports).all
        fun s => s.toList.all fun x => !isBlank x) = true := by decide +kernel
    intro i hi s hs x hx
    have hsource := Option.all_eq_true _ _ |>.mp (List.all_eq_true.mp hall i hi) s hs
    simpa using List.all_eq_true.mp hsource x hx
  have hrun : ∃ block, (importBlock "/w" "out/app/main.js" neededExports neededImports).run.value =
      .ok block :=
    ⟨_, rfl⟩
  obtain ⟨block, hblock⟩ := hrun
  refine ⟨block, hblock, (explicitItems_importBlock hitems hsources hblock).trans ?_⟩
  decide +kernel

end ScriptModules
