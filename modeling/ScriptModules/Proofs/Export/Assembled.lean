import ScriptModules.Proofs.Export.RoundTrip

/-!
# Export blocks after a body

A converted file is its body and, without a break, its export block. A body without the word
`export` adds nothing to what is read off the block, but it can take something away. The statement
of plain names comes after a line break. The one of an entry does not: where the body ends with an
identifier character or a dot, the first word of the block is part of what stands before it, and the
first entry is lost. Every other statement comes after a line break again.
-/

namespace ScriptModules

open Pattern Pattern.Node Text

section Seam

variable {baseName : String} {c : Cursor} {s rest : List Char} {e : Export}

/-- A word that starts in a text without it and goes on after the text goes on with one of its later
letters. -/
theorem not_prefix_of_seam {w b : List Char} (hs : ¬w <:+: s) (hrest : ∀ x ∈ rest.head?, x ∉ w.tail)
    (hb : b <:+ s) (hne : b ≠ []) : ¬w <+: b ++ rest := by
  intro h
  rcases List.prefix_or_prefix_of_prefix h (List.prefix_append b rest) with hinside | ⟨t, rfl⟩
  · exact hs (hinside.isInfix.trans hb.isInfix)
  · obtain ⟨y, b, rfl⟩ := List.exists_cons_of_ne_nil hne
    cases t with
    | nil =>
        apply hs
        rw [List.append_nil]
        exact hb.isInfix
    | cons x t =>
        obtain ⟨r, hr⟩ := (List.prefix_append_right_inj _).mp h
        apply hrest x
        · rw [← hr]
          rfl
        · simp

/-- A statement is read only where one may start, and it starts with its word. -/
theorem clear_of_matchAt {m : Match} (h : Statement.exportStatement.matchAt false c = some m) :
    c.Clear ∧ "export".toList <+: c.after := by
  obtain ⟨c₁, hstart, hway⟩ := mem_ways_seq.mp (matchAt_sound h).2
  obtain ⟨hclear, rfl⟩ := mem_ways_notBehind.mp hstart
  obtain ⟨c₂, hword, -⟩ := mem_ways_seq.mp hway
  exact ⟨hclear, (mem_ways_word.mp hword).1⟩

/-- Text in which no statement starts is passed over. -/
theorem exportsAt_passes (h : c.after = s ++ rest)
    (hnone : ∀ a b, s = a ++ b → b ≠ [] → (c.beyond a).Clear → ¬"export".toList <+: b ++ rest) :
    exportsAt baseName c = exportsAt baseName (c.beyond s) := by
  rw [exportsAt, exportsAt, matchesAt_skips advances_exportStatement h]
  intro a x b hsplit
  rw [Option.eq_none_iff_forall_not_mem]
  intro m hm
  obtain ⟨hclear, hword⟩ := clear_of_matchAt hm
  have hafter : (c.beyond a).after = x :: b ++ rest :=
    Cursor.after_beyond (by rw [h, hsplit, List.append_assoc])
  rw [hafter] at hword
  exact hnone a (x :: b) hsplit (by simp) hclear hword

theorem exportsAt_body (h : c.after = s ++ rest) (hs : ¬"export".toList <:+: s)
    (hrest : ∀ x ∈ rest.head?, x ∉ "xport".toList) :
    exportsAt baseName c = exportsAt baseName (c.beyond s) := by
  apply exportsAt_passes h
  intro a b hsplit hne _
  exact not_prefix_of_seam hs hrest ⟨a, hsplit.symm⟩ hne

/-- The statement of an entry ends its line. -/
theorem clear_beyond_statement (he : e.Writable) (hentry : e.isEntry = true) :
    (c.beyond (statementText e).toList).Clear := by
  have hbreak : Statement.glued.contains '\n' = false := by decide
  cases he with
  | plain hname => simp [Export.isEntry] at hentry
  | renamed hname hnew => simpa [Cursor.Clear, toList_renaming] using hbreak
  | passed hitem hsource => simpa [Cursor.Clear, toList_passed] using hbreak

/-- Right after a character that belongs to its first word, the statement of an entry is passed
over. -/
theorem exportsAt_glued (he : e.Writable) (hentry : e.isEntry = true) (hc : ¬c.Clear)
    (h : c.after = (statementText e).toList ++ rest) (hrest : ∀ x ∈ rest.head?, x ∉ "xport".toList)
    (hfree : ¬"export".toList <:+: (statementText e).toList.tail) :
    exportsAt baseName c = exportsAt baseName (c.beyond (statementText e).toList) := by
  obtain ⟨r, hr⟩ := exists_statementText_cons he hentry
  apply exportsAt_passes h
  intro a b hsplit hne hclear
  cases a with
  | nil => exact absurd hclear hc
  | cons x a =>
      rw [hr] at hsplit hfree
      exact not_prefix_of_seam hfree hrest ⟨a, (List.cons.inj hsplit).2.symm⟩ hne

end Seam

section Blocks

variable {baseName : String} {exports : List Export} {names : List String} {c : Cursor}

/-- Plain exports have no statement of their own. -/
theorem blockText_filter (exports : List Export) (names : List String) :
    blockText (exports.filter (·.isEntry)) names = blockText exports names := by
  induction exports with
  | nil => rfl
  | cons e exports ih =>
      cases e with
      | plain name =>
          rw [List.filter_cons_of_neg (by simp [Export.isEntry]), ih, blockText_cons]
          rfl
      | entry name action complement =>
          rw [List.filter_cons_of_pos (by rfl), blockText_cons, blockText_cons, ih]

/-- A block starts with a statement or with a line break. -/
theorem head_blockText (h : ∀ e ∈ exports, e.Writable ∧ e.isEntry = true) :
    ∀ x ∈ (blockText exports names).head?, x ∉ "xport".toList := by
  intro x hx
  cases exports with
  | nil =>
      rw [blockText_nil, plainStatement] at hx
      split at hx
      · simp at hx
      · obtain rfl : '\n' = x := by simpa using hx
        decide
  | cons e exports =>
      obtain ⟨he, hentry⟩ := h e (by simp)
      obtain ⟨r, hr⟩ := exists_statementText_cons he hentry
      rw [blockText_cons, hr] at hx
      obtain rfl : 'e' = x := by simpa using hx
      decide

theorem filter_eq_self_of_entries (h : ∀ e ∈ exports, e.Writable ∧ e.isEntry = true) :
    exports.filter (·.isEntry) = exports :=
  List.filter_eq_self.mpr fun e he => (h e he).2

/-- Right after any character, the statement of plain names is read. -/
theorem exportsAt_plainStatement (hnames : ∀ name ∈ names, IsIdentifier name.toList)
    (h : c.after = (plainStatement names).toList) : exportsAt baseName c = names.map .plain := by
  by_cases hne : names = []
  · subst hne
    exact exportsAt_nil h
  · have hbreak : (plainStatement names).toList =
        ['\n'] ++ (braced "export" names ++ "\n").toList := by
      rw [plainStatement, if_neg (by simpa using hne)]
      simp
    have hclear : (c.beyond ['\n']).Clear := by
      have hnewline : Statement.glued.contains '\n' = false := by decide
      simpa [Cursor.Clear] using hnewline
    rw [hbreak] at h
    rw [exportsAt_blanks h (by simp [isBlank])]
    apply exportsAt_plain hnames hclear
    rw [Cursor.after_beyond h, hbreak]
    simp [trimStart, isBlank]

end Blocks

/-- Every export of a block is read off a file whose body does not hold the word `export`, if no
statement of an entry stands right after the body or the body ends with a character after which a
statement may start. Otherwise the first entry is lost, and all other exports are read. -/
theorem fromStatements_assemble {exports : List Export} (path readerName body : String)
    (hexports : ∀ e ∈ exports, e.Writable) (hbody : ¬"export".toList <:+: body.toList) :
    ∃ block, (exportBlock path exports).run.value = .ok block ∧
      let read := (Export.fromStatements readerName (assemble "" "" body block).toList).value
      let entries := exports.filter (·.isEntry)
      let names := exports.filter fun e => !e.isEntry
      (body.toList.getLast?.any Statement.glued.contains = false ∨ entries = [] →
        read = entries ++ names) ∧
      ∀ e rest, entries = e :: rest → body.toList.getLast?.any Statement.glued.contains = true →
        ¬"export".toList <:+: (statementText e).toList.tail → read = rest ++ names := by
  obtain ⟨block, hwritten, htext⟩ := exists_exportBlock path hexports
  refine ⟨block, hwritten, ?_⟩
  intro read entries names
  have hentries : ∀ e ∈ entries, e.Writable ∧ e.isEntry = true := by
    intro e he
    obtain ⟨he, hentry⟩ := List.mem_filter.mp he
    exact ⟨hexports e he, hentry⟩
  have hnames := isIdentifier_of_mem_plain hexports
  have hplain : (exports.filterMap Export.plain?).map .plain = names := map_plain_filterMap exports
  have hsplit : (assemble "" "" body block).toList =
      body.toList ++ blockText entries (exports.filterMap Export.plain?) := by
    rw [blockText_filter, ← htext]
    simp [assemble]
  generalize hstart : Cursor.start (assemble "" "" body block).toList = c
  have hc : c.after = body.toList ++ blockText entries (exports.filterMap Export.plain?) := by
    rw [← hstart, ← hsplit]
    rfl
  have hafter := Cursor.after_beyond hc
  have hread : read = exportsAt readerName (c.beyond body.toList) := by
    rw [← exportsAt_body hc hbody (head_blockText hentries), ← hstart]
    exact value_fromStatements readerName _
  have hseam : (c.beyond body.toList).Clear ↔
      body.toList.getLast?.any Statement.glued.contains = false := by
    rw [Cursor.Clear, Cursor.before_beyond, List.head?_append, List.head?_reverse, ← hstart]
    simp [Cursor.start]
  constructor
  · rintro (hclear | hnone)
    · rw [hread, exportsAt_block (fun e he => (hentries e he).1) hnames (hseam.mpr hclear)
        (congrArg trimStart hafter), filter_eq_self_of_entries hentries, hplain]
    · rw [hnone, blockText_nil] at hafter
      rw [hread, exportsAt_plainStatement hnames hafter, hplain, hnone, List.nil_append]
  · intro e rest hfirst hglued hfree
    rw [hfirst] at hentries hafter
    rw [blockText_cons] at hafter
    obtain ⟨he, hentry⟩ := hentries e (by simp)
    have hrest : ∀ e ∈ rest, e.Writable ∧ e.isEntry = true :=
      fun e he => hentries e (List.mem_cons_of_mem _ he)
    have hseamed : ¬(c.beyond body.toList).Clear := by
      rw [hseam, hglued]
      simp
    rw [hread, exportsAt_glued he hentry hseamed hafter (head_blockText hrest) hfree,
      exportsAt_block (fun e he => (hrest e he).1) hnames (clear_beyond_statement he hentry)
        (congrArg trimStart (Cursor.after_beyond hafter)), filter_eq_self_of_entries hrest, hplain]

/-- The same exports after a body that ends with a semicolon and after one that ends with a
digit. -/
theorem fromStatements_assemble_semicolon_digit :
    (∃ block,
      (exportBlock "out/f.js" [.plain "c", .entry "a" .asName "b",
      .entry "x y" .fromFile "./q"]).run.value =
        .ok block ∧
      (Export.fromStatements "f" (assemble "" "" "var a = 1;" block).toList).value =
        [.entry "a" .asName "b", .entry "x y" .fromFile "./q", .plain "c"]) ∧
    ∃ block,
      (exportBlock "out/f.js" [.plain "c", .entry "a" .asName "b",
      .entry "x y" .fromFile "./q"]).run.value =
        .ok block ∧
      (Export.fromStatements "f" (assemble "" "" "var a = 1" block).toList).value =
        [.entry "x y" .fromFile "./q", .plain "c"] := by
  have hexports : ∀ e ∈ [Export.plain "c", .entry "a" .asName "b", .entry "x y" .fromFile "./q"],
      e.Writable := by
    simp only [List.forall_mem_cons, List.not_mem_nil, false_implies, implies_true, and_true]
    refine ⟨.plain (by decide), .renamed (by decide) (by decide), .passed ?_ ?_⟩
    · exact ⟨by decide, by decide, by decide, by decide⟩
    · exact ⟨by decide, List.all_eq_true.mp (by decide)⟩
  constructor
  · obtain ⟨block, hwritten, hread, -⟩ :=
      fromStatements_assemble "out/f.js" "f" "var a = 1;" hexports (by decide)
    exact ⟨block, hwritten, hread (.inl (by decide))⟩
  · obtain ⟨block, hwritten, -, hread⟩ :=
      fromStatements_assemble "out/f.js" "f" "var a = 1" hexports (by decide)
    exact ⟨block, hwritten, hread _ _ rfl (by decide) (by decide)⟩

/-- The only export of a file is not read, as its statement stands right after a digit. -/
theorem entry_lost_after_digit :
    ¬"export".toList <:+: "var a = 1".toList ∧
    (exportBlock "out/f.js" [.entry "a" .asName "b"]).run.value = .ok "export \x7b a as b \x7d\n" ∧
    (Export.fromStatements "f"
      (assemble "" "" "var a = 1" "export \x7b a as b \x7d\n").toList).value = [] := by
  refine ⟨by decide, by decide +kernel, by decide +kernel⟩

end ScriptModules
