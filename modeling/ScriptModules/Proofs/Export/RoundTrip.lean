import ScriptModules.Proofs.Block.Braced
import ScriptModules.Proofs.Export.Statement
import Mathlib.Data.List.DropRight

/-!
# Reading export blocks back

The statements of an export block stand one after the other, with line breaks between them. A scan
for export statements finds each of them, takes nothing of the next one, and gets out of it the
exports that were put in: first the entries in order, then the plain names in order.
-/

namespace ScriptModules

open Pattern Pattern.Node Text

section Reading

variable {baseName : String} {c d : Cursor}

/-- The exports of the statements from a cursor on. -/
def exportsAt (baseName : String) (c : Cursor) : List Export :=
  ((Statement.exportStatement.matchesAt c).map
    fun m => (Export.ofStatement baseName m).value).flatten

theorem advances_exportStatement : Statement.exportStatement.Advances :=
  advances_seq_right (advances_seq_left (advances_word (by decide)))

theorem value_fromStatements (baseName : String) (text : List Char) :
    (Export.fromStatements baseName text).value = exportsAt baseName (.start text) := by
  rw [Export.fromStatements, Noted.value_bind, Noted.value_mapM, Noted.value_pure,
    allMatches_eq_matchesAt advances_exportStatement, exportsAt]

theorem exportsAt_found (h : Statement.exportStatement.Takes c.fresh d) :
    exportsAt baseName c = (Export.ofStatement baseName ⟨c.fresh, d⟩).value ++
      exportsAt baseName d := by
  simp [exportsAt, matchesAt_found advances_exportStatement h.matchAt]

/-- A statement starts with its first word. -/
theorem matchAt_eq_none_of_head (h : ∀ x ∈ c.after.head?, x ≠ 'e') :
    Statement.exportStatement.matchAt false c = none := by
  rw [matchAt_eq_none_iff, List.eq_nil_iff_forall_not_mem]
  intro d hd
  obtain ⟨e, he, hd⟩ := mem_ways_seq.mp hd
  obtain ⟨-, rfl⟩ := mem_ways_notBehind.mp he
  obtain ⟨e, he, hd⟩ := mem_ways_seq.mp hd
  obtain ⟨⟨r, hr⟩, -⟩ := mem_ways_word.mp he
  exact h 'e' (by rw [← Cursor.after_fresh, ← hr]; rfl) rfl

theorem exportsAt_nil (h : c.after = []) : exportsAt baseName c = [] := by
  have hnone : Statement.exportStatement.matchAt false c = none :=
    matchAt_eq_none_of_head (by simp [h])
  simp [exportsAt, matchesAt_finished hnone h]

/-- Blanks between statements are passed over. -/
theorem exportsAt_blanks {blank rest : List Char} (h : c.after = blank ++ rest)
    (hblank : ∀ x ∈ blank, isBlank x = true) :
    exportsAt baseName c = exportsAt baseName (c.beyond blank) := by
  rw [exportsAt, exportsAt, matchesAt_skips advances_exportStatement h]
  rintro a x b rfl
  have hx : x ≠ 'e' := by
    rintro rfl
    simpa [isBlank] using hblank 'e' (by simp)
  have hafter : (c.beyond a).after = x :: b ++ rest := Cursor.after_beyond (by simp [h])
  exact matchAt_eq_none_of_head (by simpa [hafter] using hx)

/-- What stands before the first character that is not blank does not matter. -/
theorem exists_exportsAt_trimmed (baseName : String) (hc : c.Clear) :
    ∃ d, d.Clear ∧ d.after = trimStart c.after ∧ exportsAt baseName d = exportsAt baseName c := by
  have hsplit : c.after = c.after.takeWhile isBlank ++ trimStart c.after :=
    List.takeWhile_append_dropWhile.symm
  have hblank : ∀ x ∈ c.after.takeWhile isBlank, isBlank x = true := fun x => List.mem_takeWhile_imp
  exact ⟨_, clear_beyond_blanks hc hblank, Cursor.after_beyond hsplit,
    (exportsAt_blanks hsplit hblank).symm⟩

/-- The exports of a list without a source are those of its items. -/
theorem value_ofStatement_list {m : Match} {inside : List Char}
    (hgroups : m.last.groups = [(1, inside)]) :
    (Export.ofStatement baseName m).value =
      (splitOn ',' inside).flatMap fun item => (Export.ofListItem baseName none item).value := by
  have hfour : m.group? 4 = none := Match.group?_eq_lookup hgroups 3
  have hthree : m.group? 3 = none := Match.group?_eq_lookup hgroups 2
  have hone : m.group 1 = inside := Match.group_eq_lookup hgroups 0
  rw [Export.ofStatement, hfour, hthree, hone]
  simp [List.flatMap_def]

theorem value_ofStatement_source {m : Match} {inside quote source : List Char}
    (hgroups : m.last.groups = [(3, source), (2, quote), (1, inside)]) :
    (Export.ofStatement baseName m).value =
      (splitOn ',' inside).flatMap fun item =>
        (Export.ofListItem baseName (some source) item).value := by
  have hfour : m.group? 4 = none := Match.group?_eq_lookup hgroups 3
  have hthree : m.group? 3 = some source := Match.group?_eq_lookup hgroups 2
  have hone : m.group 1 = inside := Match.group_eq_lookup hgroups 0
  rw [Export.ofStatement, hfour, hthree, hone]
  simp [List.flatMap_def]

end Reading

section Blocks

variable {baseName : String} {c : Cursor} {rest : List Char} {e : Export}

/-- The statement of an export, empty for a plain one. -/
def statementText (e : Export) : String := (exportStatement e).toOption.getD ""

theorem exportStatement_eq_ok (he : e.Writable) : exportStatement e = .ok (statementText e) := by
  cases he <;> rfl

theorem isBlank_head_trimStart (s : List Char) : ∀ x ∈ (trimStart s).head?, isBlank x = false := by
  intro x hx
  have h := List.head?_dropWhile_not isBlank s
  rw [trimStart] at hx
  rw [Option.mem_def.mp hx] at h
  simpa using h

theorem toList_renaming (name new : String) :
    (statementText (.entry name .asName new)).toList = "export".toList ++ (' ' :: '\x7b' ::
      ((' ' :: (name.toList ++ (' ' :: ("as".toList ++ (' ' :: new.toList))) ++ [' '])) ++
        ['\x7d', '\n'])) := by
  change ("export \x7b " ++ name ++ " as " ++ new ++ " \x7d\n").toList = _
  simp

theorem toList_passed (item source : String) :
    (statementText (.entry item .fromFile source)).toList = "export".toList ++ (' ' :: '\x7b' ::
      ((' ' :: (item.toList ++ [' '])) ++ '\x7d' ::
        (' ' :: ("from".toList ++ (' ' :: '"' :: (source.toList ++ ['"', '\n'])))))) := by
  change ("export \x7b " ++ item ++ " \x7d from \"" ++ source ++ "\"\n").toList = _
  simp

/-- A list without a source is read item by item, and nothing after it but blanks is taken. -/
theorem exportsAt_list (baseName : String) {inside : List Char} (hc : c.Clear)
    (h : c.after = "export".toList ++ (' ' :: '\x7b' :: (inside ++ '\x7d' :: '\n' :: rest)))
    (hinside : '\x7d' ∉ inside) (hrest : ∀ x ∈ (trimStart rest).head?, x ≠ 'f') :
    ∃ d, d.Clear ∧ trimStart d.after = trimStart rest ∧ exportsAt baseName c =
      ((splitOn ',' inside).flatMap fun item => (Export.ofListItem baseName none item).value) ++
        exportsAt baseName d := by
  have hsplit : '\n' :: rest = ('\n' :: rest.takeWhile isBlank) ++ trimStart rest :=
    congrArg _ List.takeWhile_append_dropWhile.symm
  have hblank : ∀ x ∈ '\n' :: rest.takeWhile isBlank, isBlank x = true := by
    intro x hx
    rcases List.mem_cons.mp hx with rfl | hx
    · decide
    · exact List.mem_takeWhile_imp hx
  rw [hsplit, ← Cursor.after_fresh] at h
  obtain ⟨d, htakes, hafter, hgroups, hclear⟩ :=
    takes_list (c := c.fresh) hc h hinside hblank fun x hx =>
    ⟨isBlank_head_trimStart rest x hx, hrest x hx⟩
  refine ⟨d, hclear, by rw [hafter, trimStart, trimStart, List.dropWhile_idempotent], ?_⟩
  rw [exportsAt_found htakes, value_ofStatement_list hgroups]

/-- A list with a source is read item by item, and nothing after it is taken. -/
theorem exportsAt_passed (baseName : String) {inside source : List Char} (hc : c.Clear)
    (h : c.after = "export".toList ++ (' ' :: '\x7b' :: (inside ++ '\x7d' ::
      (' ' :: ("from".toList ++ (' ' :: '"' :: (source ++ '"' :: rest)))))))
    (hinside : '\x7d' ∉ inside) (hsource : IsSource source) :
    ∃ d, d.Clear ∧ d.after = rest ∧ exportsAt baseName c =
      ((splitOn ',' inside).flatMap fun item =>
        (Export.ofListItem baseName (some source) item).value) ++
        exportsAt baseName d := by
  rw [← Cursor.after_fresh] at h
  obtain ⟨d, htakes, hafter, hgroups, hclear⟩ := takes_passed (c := c.fresh) hc h hinside hsource
  refine ⟨d, hclear, hafter, ?_⟩
  rw [exportsAt_found htakes, value_ofStatement_source hgroups]

/-- The statement of an entry is read as that entry, and nothing after it but blanks is taken. -/
theorem exportsAt_entry (he : e.Writable) (hentry : e.isEntry = true) (hc : c.Clear)
    (h : c.after = (statementText e).toList ++ rest)
    (hrest : ∀ x ∈ (trimStart rest).head?, x ≠ 'f') :
    ∃ d, d.Clear ∧ trimStart d.after = trimStart rest ∧
      exportsAt baseName c = e :: exportsAt baseName d := by
  cases he with
  | plain hname => simp [Export.isEntry] at hentry
  | @renamed name new hname hnew =>
      have hitem := isListItem_renaming hname hnew
      rw [toList_renaming] at h
      obtain ⟨d, hclear, hafter, hread⟩ := exportsAt_list baseName hc (by simpa using h)
        (not_mem_padded (by decide) hitem.brace) hrest
      refine ⟨d, hclear, hafter, ?_⟩
      rw [hread, splitOn_of_not_mem (not_mem_padded (by decide) hitem.comma),
        List.flatMap_singleton,
        Export.value_ofListItem_renamed hname hnew ((squeeze_padded _).trans hitem.squeezed)]
      simp
  | @passed item source hitem hsource =>
      rw [toList_passed] at h
      obtain ⟨d, hclear, hafter, hread⟩ := exportsAt_passed baseName hc (by simpa using h)
        (not_mem_padded (by decide) hitem.brace) hsource
      refine ⟨d, hclear, by rw [hafter]; rfl, ?_⟩
      rw [hread, splitOn_of_not_mem (not_mem_padded (by decide) hitem.comma),
        List.flatMap_singleton,
        Export.value_ofListItem_source ((squeeze_padded _).trans hitem.squeezed) hitem.ne_nil]
      simp

theorem exportsAt_of_trimmed_nil (hc : c.Clear) (h : trimStart c.after = []) :
    exportsAt baseName c = [] := by
  obtain ⟨d, -, hafter, hread⟩ := exists_exportsAt_trimmed baseName hc
  rw [← hread, exportsAt_nil (hafter.trans h)]

theorem flatMap_ofListItem_plain {items : List (List Char)} {names : List String}
    (hnames : ∀ name ∈ names, IsIdentifier name.toList)
    (h : items.map squeeze = names.map String.toList) :
    (items.flatMap fun item => (Export.ofListItem baseName none item).value) =
      names.map .plain := by
  induction items generalizing names with
  | nil =>
      obtain rfl : names = [] := by simpa using h.symm
      rfl
  | cons item items ih =>
      cases names with
      | nil => simp at h
      | cons name names =>
          obtain ⟨hitem, hitems⟩ := List.cons.inj h
          have hrest := ih (fun n hn => hnames n (List.mem_cons_of_mem _ hn)) hitems
          rw [List.flatMap_cons, Export.value_ofListItem_plain (hnames name (by simp)) hitem, hrest]
          simp

/-- Plain names are exported by one statement, and it is read back as those names. -/
theorem exportsAt_plain {names : List String} (hnames : ∀ name ∈ names, IsIdentifier name.toList)
    (hc : c.Clear) (h : trimStart c.after = trimStart (plainStatement names).toList) :
    exportsAt baseName c = names.map .plain := by
  by_cases hne : names = []
  · subst hne
    exact exportsAt_of_trimmed_nil hc h
  · have hlist : ∀ name ∈ names, IsListItem name.toList :=
      fun name hname => (hnames name hname).isListItem
    obtain ⟨inside, htext, -, hinside, hitems⟩ := exists_toList_braced "export" hne hlist
    have hbrace := brace_not_mem_inside hlist hinside
    obtain ⟨d, hclear, hafter, hread⟩ := exists_exportsAt_trimmed baseName hc
    have hstart :
        d.after = "export".toList ++ (' ' :: '\x7b' :: (inside ++ '\x7d' :: '\n' :: [])) := by
      rw [hafter, h, plainStatement, if_neg (by simpa using hne)]
      simp [htext, trimStart, isBlank]
    obtain ⟨d', hclear', hafter', hread'⟩ :=
      exportsAt_list baseName hclear hstart hbrace (by simp [trimStart])
    rw [← hread, hread', flatMap_ofListItem_plain hnames hitems,
      exportsAt_of_trimmed_nil hclear' hafter', List.append_nil]

/-- The statements of entries, and then the one of plain names. -/
def blockText (exports : List Export) (names : List String) : List Char :=
  (exports.flatMap fun e => (statementText e).toList) ++ (plainStatement names).toList

@[simp] theorem blockText_nil (names : List String) :
    blockText [] names = (plainStatement names).toList := rfl

@[simp] theorem blockText_cons (e : Export) (exports : List Export) (names : List String) :
    blockText (e :: exports) names = (statementText e).toList ++ blockText exports names := by
  simp [blockText]

theorem trimStart_cons_of_letter (r : List Char) : trimStart ('e' :: r) = 'e' :: r := by
  simp [trimStart, isBlank]

theorem exists_statementText_cons (he : e.Writable) (hentry : e.isEntry = true) :
    ∃ r, (statementText e).toList = 'e' :: r := by
  cases he with
  | plain hname => simp [Export.isEntry] at hentry
  | @renamed name new hname hnew => exact ⟨_, toList_renaming name new⟩
  | @passed item source hitem hsource => exact ⟨_, toList_passed item source⟩

/-- After blanks, an export block starts with a statement. -/
theorem head_trimStart_blockText {exports : List Export} (names : List String)
    (h : ∀ e ∈ exports, e.Writable) :
    ∀ x ∈ (trimStart (blockText exports names)).head?, x = 'e' := by
  induction exports with
  | nil =>
      intro x hx
      have hbraced : ∃ r, (braced "export" names).toList = 'e' :: r := by
        unfold braced
        split <;> simp
      obtain ⟨r, hr⟩ := hbraced
      rw [blockText_nil, plainStatement] at hx
      split at hx
      · simp [trimStart] at hx
      · simpa [hr, trimStart, isBlank, eq_comm] using hx
  | cons e exports ih =>
      cases hentry : e.isEntry with
      | false =>
          cases e with
          | plain name => exact ih fun e he => h e (List.mem_cons_of_mem _ he)
          | entry name action complement => simp [Export.isEntry] at hentry
      | true =>
          obtain ⟨r, hr⟩ := exists_statementText_cons (h e (by simp)) hentry
          rw [blockText_cons, hr, List.cons_append, trimStart_cons_of_letter]
          simp

/-- The statements of entries, before the one of plain names, are read back in order. -/
theorem exportsAt_block {exports : List Export} {names : List String}
    (h : ∀ e ∈ exports, e.Writable) (hnames : ∀ name ∈ names, IsIdentifier name.toList)
    (hc : c.Clear) (hafter : trimStart c.after = trimStart (blockText exports names)) :
    exportsAt baseName c = exports.filter (·.isEntry) ++ names.map .plain := by
  induction exports generalizing c with
  | nil => exact exportsAt_plain hnames hc hafter
  | cons e exports ih =>
      have hrest : ∀ e ∈ exports, e.Writable := fun e he => h e (List.mem_cons_of_mem _ he)
      cases hentry : e.isEntry with
      | false =>
          cases e with
          | plain name => exact ih hrest hc hafter
          | entry name action complement => simp [Export.isEntry] at hentry
      | true =>
          obtain ⟨c', hclear, hafter', hread⟩ := exists_exportsAt_trimmed baseName hc
          obtain ⟨r, hr⟩ := exists_statementText_cons (h e (by simp)) hentry
          rw [hafter, blockText_cons, hr, List.cons_append, trimStart_cons_of_letter,
            ← List.cons_append, ← hr]
            at hafter'
          obtain ⟨d, hclear', hafter'', hread'⟩ :=
            exportsAt_entry (h e (by simp)) hentry hclear hafter'
            fun x hx => by simp [head_trimStart_blockText names hrest x hx]
          rw [← hread, hread', ih hrest hclear' hafter'', List.filter_cons_of_pos hentry,
            List.cons_append]

theorem toList_intercalate_empty (texts : List String) :
    ("".intercalate texts).toList = texts.flatMap String.toList := by
  have hjoin : ∀ l : List (List Char), ([] : List Char).intercalate l = l.flatten := by
    intro l
    induction l with
    | nil => rfl
    | cons a l ih => cases l <;> simp_all
  rw [String.toList_intercalate, String.toList_empty, hjoin, List.flatMap_def]

/-- The export block of writable exports is its statements, one after the other. -/
theorem exists_exportBlock {exports : List Export} (path : String) (h : ∀ e ∈ exports, e.Writable) :
    ∃ block, (exportBlock path exports).run.value = .ok block ∧
      block.toList = blockText exports (exports.filterMap Export.plain?) := by
  rw [exportBlock]
  split
  · rename_i hempty
    obtain rfl : exports = [] := by simpa using hempty
    exact ⟨"", rfl, rfl⟩
  · have hentries : exports.mapM exportStatement = .ok (exports.map statementText) :=
      mapM_eq_ok fun e he => exportStatement_eq_ok (h e he)
    refine ⟨"".intercalate (exports.map statementText) ++
      plainStatement (exports.filterMap Export.plain?), ?_, ?_⟩
    · rw [hentries]
      rfl
    · rw [String.toList_append, toList_intercalate_empty, List.flatMap_map, blockText]

theorem map_plain_filterMap (exports : List Export) :
    (exports.filterMap Export.plain?).map .plain = exports.filter fun e => !e.isEntry := by
  induction exports with
  | nil => rfl
  | cons e exports ih =>
      cases e with
      | plain name => exact congrArg (Export.plain name :: ·) ih
      | entry name action complement => exact ih

theorem isIdentifier_of_mem_plain {exports : List Export} (h : ∀ e ∈ exports, e.Writable) :
    ∀ name ∈ exports.filterMap Export.plain?, IsIdentifier name.toList := by
  intro name hname
  obtain ⟨e, he, hplain⟩ := List.mem_filterMap.mp hname
  cases h e he with
  | plain hident =>
      obtain rfl := Option.some.inj hplain
      exact hident
  | renamed => simp [Export.plain?] at hplain
  | passed => simp [Export.plain?] at hplain

end Blocks

/-- The export block of writable exports is written, and read back it gives the entries in order and
then the plain names in order. -/
theorem exists_exportBlock_reads {exports : List Export} (path baseName : String)
    (h : ∀ e ∈ exports, e.Writable) :
    ∃ block, (exportBlock path exports).run.value = .ok block ∧
      (Export.fromStatements baseName block.toList).value =
        exports.filter (·.isEntry) ++ exports.filter fun e => !e.isEntry := by
  obtain ⟨block, hwritten, htext⟩ := exists_exportBlock path h
  have hstart : trimStart (Cursor.start block.toList).after =
      trimStart (blockText exports (exports.filterMap Export.plain?)) := congrArg trimStart htext
  have hclear : (Cursor.start block.toList).Clear := rfl
  refine ⟨block, hwritten, ?_⟩
  rw [value_fromStatements, exportsAt_block h (isIdentifier_of_mem_plain h) hclear hstart,
    map_plain_filterMap]

/-- Whatever the dialect of a script, the export block written for its exports is read back as those
exports, the entries first. -/
theorem exportBlock_decodes (namespaceName baseName path readerName text : String)
    (hbase : IsIdentifier baseName.toList) :
    let exports :=
      (resolveExports namespaceName baseName none (classify namespaceName text) text).value
    ∃ block, (exportBlock path exports).run.value = .ok block ∧
      (Export.fromStatements readerName block.toList).value =
        exports.filter (·.isEntry) ++ exports.filter fun e => !e.isEntry :=
  exists_exportBlock_reads path readerName fun _ he => writable_resolveExports hbase he

theorem exportBlock_decodes_sample :
    IsIdentifier "main".toList ∧
    let text := "export \x7b a as b, c \x7d export \x7b x  y, z \x7d from './q' export const d"
    let exports := (resolveExports "NS" "main" none (classify "NS" text) text).value
    exports = [.entry "a" .asName "b", .plain "c", .entry "x y" .fromFile "./q",
      .entry "z" .fromFile "./q", .plain "d"] ∧
      ∃ block, (exportBlock "out/main.js" exports).run.value = .ok block ∧
        (Export.fromStatements "main" block.toList).value =
          [.entry "a" .asName "b", .entry "x y" .fromFile "./q",
            .entry "z" .fromFile "./q", .plain "c", .plain "d"] := by
  have hbase : IsIdentifier "main".toList := by decide
  have hexports : (resolveExports "NS" "main" none (classify "NS"
      "export \x7b a as b, c \x7d export \x7b x  y, z \x7d from './q' export const d")
      "export \x7b a as b, c \x7d export \x7b x  y, z \x7d from './q' export const d").value =
      [.entry "a" .asName "b", .plain "c", .entry "x y" .fromFile "./q", .entry "z" .fromFile "./q",
        .plain "d"] := by decide +kernel
  have hdecodes := exportBlock_decodes "NS" "main" "out/main.js" "main"
    "export \x7b a as b, c \x7d export \x7b x  y, z \x7d from './q' export const d" hbase
  rw [hexports] at hdecodes
  exact ⟨hbase, hexports, by rw [hexports]; exact hdecodes⟩

end ScriptModules
