import ScriptModules.Proofs.Import.RoundTrip
import ScriptModules.Proofs.Rule.ExportLists
import ScriptModules.Proofs.Rule.Openings

/-!
# Imports that are stripped

An import is read up to the word before its source, and it is stripped with the rest of the line on
which that word stands. So it stays if its source stands on another line, and a rule that removes
another statement from the middle of an import can bring one about. Main statement: where neither
happens, no import is read after the rules for module statements; and an import without a source on
its line, with no other statement after it, stays as it is.
-/

namespace ScriptModules

open Pattern Pattern.Node Text Statement

namespace Statement

/-- The text of a clause: its parts, each before blanks. -/
inductive IsClause : List Char → Prop
  | last {item blank : List Char} (hitem : IsPart item) (hne : blank ≠ [])
      (hblank : ∀ x ∈ blank, isBlank x = true) :
      IsClause (item ++ blank)
  | more {item blank rest : List Char} (hitem : IsPart item) (hne : blank ≠ [])
      (hblank : ∀ x ∈ blank, isBlank x = true) (hrest : IsClause rest) :
        IsClause (item ++ blank ++ rest)

/-- The text of an import up to the word before its source. -/
inductive IsImport : List Char → Prop
  | intro {blank clause : List Char} (hne : blank ≠ []) (hblank : ∀ x ∈ blank, isBlank x = true)
      (hclause : IsClause clause) :
        IsImport ("import".toList ++ (blank ++ (clause ++ "from".toList)))

/-- The text of an import that may go on, from its first word. -/
def Opens (start : List Char) : Prop := "import".toList <+: start ∧ ∃ next, IsImport (start ++ next)

/-- The text starts with an import that is followed by something on its line. -/
def HasLine (text : List Char) : Prop :=
  ∃ head x rest, IsImport head ∧ x ≠ '\n' ∧ text = head ++ x :: rest

/-- The text does not start with an import, and removing a statement does not make it one: none
stands where the import may go on. -/
structure Idle (text : List Char) : Prop where
  apart : ∀ start rest, text = start ++ rest → Opens start → ∀ w ∈ heads, ¬w <+: rest
  unread : ∀ start rest, text = start ++ rest → IsImport start → rest.head?.any isWord = true

end Statement

/-- Wherever the text holds the word `import`, it starts an import with a source on its line or is
idle. -/
def ImportsSettled (text : List Char) : Prop :=
  ∀ before rest, text = before ++ rest → "import".toList <+: rest → HasLine rest ∨ Idle rest

/-- Wherever the text holds the word `import`, it is idle. -/
def ImportsIdle (text : List Char) : Prop :=
  ∀ before rest, text = before ++ rest → "import".toList <+: rest → Idle rest

section Clauses

variable {c d e : Cursor}

theorem exists_isClause_of_reaches (h : clausePart.Reaches c d) :
    c = d ∨ ∃ t, IsClause t ∧ t <+: c.after ∧ d = c.beyond t := by
  induction h using Relation.ReflTransGen.head_induction_on with
  | refl => exact .inl rfl
  | @head c e hturn _ ih =>
      obtain ⟨item, blank, hitem, hne, hblank, ⟨r, hr⟩, rfl⟩ := mem_ways_clausePart.mp hturn
      rcases ih with rfl | ⟨t, ht, hpre, rfl⟩
      · exact .inr ⟨_, .last hitem hne hblank, ⟨r, hr⟩, rfl⟩
      · rw [Cursor.after_beyond hr.symm] at hpre
        refine .inr ⟨_, .more hitem hne hblank ht, ?_, Cursor.beyond_beyond _ _ _⟩
        rw [← hr]
        exact (List.prefix_append_right_inj _).mpr hpre

/-- A clause leads over the texts of a clause. -/
theorem mem_ways_clause : d ∈ clause.ways c ↔ ∃ t, IsClause t ∧ t <+: c.after ∧ d = c.beyond t := by
  rw [clause_eq, mem_ways_oneOrMore advances_clausePart]
  constructor
  · rintro ⟨e, hturn, hreach⟩
    rcases exists_isClause_of_reaches (.head hturn hreach) with rfl | h
    · have hpos := advances_clausePart _ _ hturn
      have hback : e.pos ≤ c.pos :=
        pos_le_of_mem_ways ((mem_ways_many advances_clausePart).mpr hreach)
      omega
    · exact h
  · rintro ⟨t, ht, hpre, rfl⟩
    induction ht generalizing c with
    | @last item blank hitem hne hblank =>
        exact ⟨_, mem_ways_clausePart.mpr ⟨item, blank, hitem, hne, hblank, hpre, rfl⟩, .refl⟩
    | @more item blank rest hitem hne hblank _ ih =>
        obtain ⟨r, hr⟩ := hpre
        have hafter : c.after = (item ++ blank) ++ (rest ++ r) := by rw [← hr]; simp
        obtain ⟨e, hturn, hreach⟩ :=
          @ih (c.beyond (item ++ blank)) ⟨r, (Cursor.after_beyond hafter).symm⟩
        refine ⟨_, mem_ways_clausePart.mpr ⟨item, blank, hitem, hne, hblank, ⟨_, hafter.symm⟩, rfl⟩,
          ?_⟩
        rw [Cursor.beyond_beyond] at hreach
        exact .head hturn hreach

/-- An import that is read has its source, or anything else but a word, after its last word. -/
theorem exists_isImport_of_matchAt {m : Match} (h : importClause.matchAt false c = some m) :
    ∃ head rest, IsImport head ∧ rest.head?.any isWord = false ∧ c.after = head ++ rest := by
  obtain ⟨c₁, himport, h⟩ := mem_ways_seq.mp (matchAt_sound h).2
  obtain ⟨c₂, hgap, h⟩ := mem_ways_seq.mp h
  obtain ⟨c₃, hclause, h⟩ := mem_ways_seq.mp h
  obtain ⟨c₄, hfrom, hedge⟩ := mem_ways_seq.mp h
  obtain ⟨hedge, rfl⟩ := mem_ways_anchor.mp hedge
  obtain ⟨e, hway, rfl⟩ := List.mem_map.mp hclause
  obtain ⟨blank, hne, hblank, hafter₁⟩ := passes_oneOrMore hgap
  obtain ⟨t, ht, hpre, rfl⟩ := mem_ways_clause.mp hway
  have hlast : m.last.before.head?.any isWord = true := by
    obtain ⟨hstart, hlast⟩ := mem_ways_word.mp hfrom
    rw [hlast]
    exact isWord_before_of_leads (Cursor.leads_beyond hstart)
      ⟨by decide, List.all_eq_true.mp (by decide)⟩
  refine ⟨_, m.last.after, .intro hne (by simpa using hblank) ht, ?_, ?_⟩
  · rw [Cursor.holds_boundary, hlast] at hedge
    simpa using hedge
  · have hafter₂ : c₂.after = t ++ ("from".toList ++ m.last.after) := by
      rw [(Cursor.leads_beyond hpre).after, ← (passes_word hfrom).1]
      rfl
    rw [← Cursor.after_fresh, (passes_word himport).1, hafter₁, hafter₂]
    simp

theorem matchAt_importLine_ne_none (h : HasLine c.after) : importLine.matchAt false c ≠ none := by
  obtain ⟨head, x, rest, himport, hx, hc⟩ := h
  cases himport with
  | @intro blank t hne hblank ht =>
      have hword :
          c.fresh.after = "import".toList ++ (blank ++ (t ++ ("from".toList ++ x :: rest))) := by
        rw [Cursor.after_fresh, hc]
        simp
      have hgap := Cursor.after_beyond hword
      have hclause := Cursor.after_beyond hgap
      have hfrom := Cursor.after_beyond hclause
      have hline := Cursor.after_beyond hfrom
      apply matchAt_ne_none
        (d := ((((c.fresh.beyond "import".toList).beyond blank).beyond t).beyond
          "from".toList).beyond [x])
      refine mem_ways_seq.mpr ⟨_, mem_ways_word.mpr ⟨⟨_, hword.symm⟩, rfl⟩, ?_⟩
      refine mem_ways_seq.mpr
        ⟨_, mem_ways_oneOrMore_set.mpr ⟨blank, hne, ⟨_, hgap.symm⟩, ?_, rfl⟩, ?_⟩
      · simpa using hblank
      refine mem_ways_seq.mpr ⟨_, mem_ways_clause.mpr ⟨t, ht, ⟨_, hclause.symm⟩, rfl⟩, ?_⟩
      refine mem_ways_seq.mpr ⟨_, mem_ways_word.mpr ⟨⟨_, hfrom.symm⟩, rfl⟩, ?_⟩
      exact mem_ways_oneOrMore_set.mpr ⟨[x], by simp, ⟨rest, hline.symm⟩, by simpa using hx, rfl⟩

/-- An import is stripped with what follows it on its line. -/
theorem exists_line_of_matchAt {m : Match} (h : importLine.matchAt false c = some m) :
    ∃ head line, IsImport head ∧ line ≠ [] ∧ '\n' ∉ line ∧
      c.after = head ++ (line ++ m.last.after) := by
  obtain ⟨c₁, himport, h⟩ := mem_ways_seq.mp (matchAt_sound h).2
  obtain ⟨c₂, hgap, h⟩ := mem_ways_seq.mp h
  obtain ⟨c₃, hclause, h⟩ := mem_ways_seq.mp h
  obtain ⟨c₄, hfrom, hline⟩ := mem_ways_seq.mp h
  obtain ⟨blank, hne, hblank, hafter₁⟩ := passes_oneOrMore hgap
  obtain ⟨t, ht, hpre, rfl⟩ := mem_ways_clause.mp hclause
  obtain ⟨line, hline, hother, hafter₄⟩ := passes_oneOrMore hline
  refine ⟨_, line, .intro hne (by simpa using hblank) ht, hline, ?_, ?_⟩
  · intro hbreak
    simpa using hother '\n' hbreak
  · rw [← Cursor.after_fresh, (passes_word himport).1, hafter₁, (Cursor.leads_beyond hpre).after,
      (passes_word hfrom).1, hafter₄]
    simp

theorem hasLine_of_matchAt {m : Match} (h : importLine.matchAt false c = some m) :
    HasLine c.after := by
  obtain ⟨head, line, himport, hne, hbreak, hafter⟩ := exists_line_of_matchAt h
  obtain ⟨x, line, rfl⟩ := List.exists_cons_of_ne_nil hne
  refine ⟨head, x, line ++ m.last.after, himport, ?_, hafter⟩
  rintro rfl
  simp at hbreak

end Clauses

section Replacing

variable {n : Node} {f : Match → List Char} {p : Char → Bool}

theorem Statement.Opens.of_append {a b : List Char} (h : Opens (a ++ b))
    (ha : "import".toList <+: a) : Opens a := by
  obtain ⟨-, next, himport⟩ := h
  exact ⟨ha, b ++ next, by rwa [← List.append_assoc]⟩

theorem Statement.IsImport.opens {head : List Char} (h : IsImport head) : Opens head := by
  refine ⟨?_, [], by rwa [List.append_nil]⟩
  cases h with
  | intro => exact List.prefix_append _ _

/-- After a rule all imports are idle that were so wherever the rule has no match. -/
theorem importsIdle_replace {text : List Char} (hn : n.Severs f Starts "import".toList p)
    (h : ∀ {c : Cursor}, c.text = text → "import".toList <+: c.after → n.matchAt false c = none →
      Idle c.after) :
    ImportsIdle (n.replace none f text) := by
  have hopening : ∀ before start rest, n.replace none f text = before ++ (start ++ rest) →
      Opens start →
      ∃ c : Cursor, Idle c.after ∧ c.after = start ++ (c.beyond start).after ∧
        n.matchAt false (c.beyond start) = none ∧
        rest = n.replacedAt f (c.beyond start) ∧ ∀ w ∈ heads, ¬w <+: rest := by
    intro before start rest hsplit hopens
    obtain ⟨a, e, hlead, hstart, hnone, hafter, hfree, hrest, hheads⟩ :=
      @exists_opening n f _ p Opens _ _ _ _ hn
      (by decide) And.left Opens.of_append (fun hc hstart hnone => (h hc hstart hnone).apart)
        hsplit hopens
    exact ⟨e, h hlead.text hstart hnone, hafter, hfree, hrest, hheads⟩
  rintro before rest hsplit -
  constructor
  · rintro start rest rfl hopens
    obtain ⟨-, -, -, -, -, hheads⟩ := hopening before start rest hsplit hopens
    exact hheads
  · rintro start rest rfl himport
    obtain ⟨c, hidle, hafter, hfree, hrest, -⟩ := hopening before start rest hsplit himport.opens
    rw [hrest, Node.head?_replacedAt hn.advances hfree]
    exact hidle.unread start _ hafter himport

theorem ImportsIdle.replaced {text : List Char} (hn : n.Severs f Starts "import".toList p)
    (h : ImportsIdle text) :
    ImportsIdle (n.replace none f text) :=
  importsIdle_replace hn fun hc hstart _ => h _ _ hc.symm hstart

end Replacing

section Rules

variable {k : Node} {f : Match → List Char} {words : List String} {text : List Char}

/-- A keyword takes the place of a declaration, and no statement starts in it. -/
theorem not_infix_of_matchAt_exported (hk : ReadsKeyword k f words) {c : Cursor} {m : Match}
    (h : (exported k).matchAt false c = some m) : ∀ w ∈ heads, ¬w <:+: f m := by
  obtain ⟨c₁, -, h⟩ := mem_ways_seq.mp (matchAt_sound h).2
  obtain ⟨c₂, -, h⟩ := mem_ways_seq.mp h
  obtain ⟨c₃, -, h⟩ := mem_ways_seq.mp h
  obtain ⟨c₄, hkeyword, h⟩ := mem_ways_seq.mp h
  obtain ⟨-, rfl⟩ := mem_ways_anchor.mp h
  obtain ⟨v, hv, -, hf⟩ := hk.sound hkeyword
  intro w hw hwithin
  rw [show f m = v.toList from hf m.first] at hwithin
  exact not_infix_keyword (hk.subset hv) w hw (hwithin.trans (List.suffix_cons ' ' _).isInfix)

theorem ImportsSettled.importLine (h : ImportsSettled text) :
    ImportsIdle (Statement.importLine.remove text) := by
  refine importsIdle_replace (strips_importLine.of_word fun _ => by simp) fun hc hstart hnone => ?_
  rcases h _ _ hc.symm hstart with hline | hidle
  · exact absurd hnone (matchAt_importLine_ne_none hline)
  · exact hidle

theorem ImportsIdle.exported (hk : ReadsKeyword k f words) (h : ImportsIdle text) :
    ImportsIdle ((Statement.exported k).replace none f text) :=
  h.replaced
    ((strips_exported hk).of_word fun hm => not_infix_of_matchAt_exported hk hm _ (by decide))

theorem ImportsIdle.exportList (h : ImportsIdle text) :
    ImportsIdle (Statement.exportList.remove text) :=
  h.replaced (strips_exportList.of_word fun _ => by simp)

theorem explicitItems_eq_nil (h : ImportsIdle text) : Import.explicitItems text = [] := by
  have hnone : importClause.allMatches text = [] := by
    refine allMatches_eq_nil advances_importClause fun a b hab => ?_
    rw [Option.eq_none_iff_forall_not_mem]
    intro m hm
    obtain ⟨head, rest, himport, hrest, hafter⟩ := exists_isImport_of_matchAt hm
    rw [Cursor.after_beyond (c := Cursor.start text) hab] at hafter
    have hstart : "import".toList <+: b :=
      hafter ▸ himport.opens.1.trans (List.prefix_append head rest)
    rw [(h a b hab hstart).unread head rest hafter himport] at hrest
    cases hrest
  rw [Import.explicitItems, groupTexts, hnone]
  rfl

/-- The rules for exports do not match where another word stands. -/
theorem matchAt_eq_none_of_not_export {n : Node} {c : Cursor} (h : ¬"export".toList <+: c.after) :
    (wordEdge.seq ((word "export").seq n)).matchAt false c = none := by
  rw [Option.eq_none_iff_forall_not_mem]
  intro m hm
  obtain ⟨c₁, hedge, hway⟩ := mem_ways_seq.mp (matchAt_sound hm).2
  obtain ⟨-, rfl⟩ := mem_ways_anchor.mp hedge
  obtain ⟨c₂, hword, -⟩ := mem_ways_seq.mp hway
  exact h (mem_ways_word.mp hword).1

/-- An import without a source on its line stays as it is. -/
theorem applyAll_moduleStatements_eq_self (hstart : "import".toList <+: text)
    (hline : ¬HasLine text) (hs : StartsOnce text) :
    Rule.applyAll Rule.moduleStatements text = .ok text := by
  have hexport : ¬"export".toList <+: (Cursor.start text).after := by
    obtain ⟨r, hr⟩ := hstart
    rintro ⟨q, hq⟩
    have hhead := congrArg List.head? (hq.trans hr.symm)
    simp at hhead
  have himport : importLine.remove text = text := by
    apply replace_eq_self_of_startsOnce strips_importLine hs
    rw [Option.eq_none_iff_forall_not_mem]
    intro m hm
    exact hline (hasLine_of_matchAt hm)
  have hexported : ∀ {k : Node} {f : Match → List Char} {words : List String},
      ReadsKeyword k f words →
      (Statement.exported k).replace none f text = text := fun hk =>
    replace_eq_self_of_startsOnce (strips_exported hk) hs (matchAt_eq_none_of_not_export hexport)
  have hlist : Statement.exportList.remove text = text :=
    replace_eq_self_of_startsOnce strips_exportList hs (matchAt_eq_none_of_not_export hexport)
  have hvar : "var" ∈ keywords := by decide
  have hfunction : "function" ∈ keywords := by decide
  rw [Rule.applyAll_moduleStatements]
  simp only [Rule.declarationsStripped, himport, hexported (readsKeyword_word hvar),
    hexported (readsKeyword_word hfunction), hexported readsKeyword_group, hlist]

end Rules

/-- What the rules for module statements leave of a text holds no import that is read, if every one
has its source on its line and no other statement stands in it. A text that starts with an import
that has none on its line, and in which no other statement starts, stays as it is. -/
theorem explicitItems_moduleStatements (text : List Char) :
    (ImportsSettled text →
      ∃ rest, Rule.applyAll Rule.moduleStatements text = .ok rest ∧
        Import.explicitItems rest = []) ∧
    ("import".toList <+: text → ¬HasLine text → StartsOnce text →
      Rule.applyAll Rule.moduleStatements text = .ok text) := by
  have hvar : "var" ∈ keywords := by decide
  have hfunction : "function" ∈ keywords := by decide
  constructor
  · intro h
    have hdeclarations :=
      (h.importLine.exported (readsKeyword_word hvar)).exported (readsKeyword_word hfunction)
    have hall := (hdeclarations.exported readsKeyword_group).exportList
    exact ⟨_, Rule.applyAll_moduleStatements text, explicitItems_eq_nil hall⟩
  · exact applyAll_moduleStatements_eq_self

section Samples

theorem isBlank_of_run {x : Char} (h : run.contains x = true) : isBlank x = false := by
  cases hblank : isBlank x with
  | false => rfl
  | true =>
      rw [contains_run_of_isBlank hblank] at h
      cases h

/-- A clause starts with a brace or a character of a run. -/
theorem Statement.IsClause.head {t : List Char} (h : IsClause t) :
    ∃ z r, (z = '\x7b' ∨ run.contains z = true) ∧ t = z :: r := by
  have hpart : ∀ {item rest : List Char}, IsPart item →
      ∃ z r, (z = '\x7b' ∨ run.contains z = true) ∧ item ++ rest = z :: r := by
    intro item rest hitem
    cases hitem with
    | list hne hlisted => exact ⟨_, _, .inl rfl, rfl⟩
    | names hne hrun =>
        obtain ⟨z, t, rfl⟩ := List.exists_cons_of_ne_nil hne
        exact ⟨z, _, .inr (hrun z (by simp)), rfl⟩
  cases h with
  | last hitem => exact hpart hitem
  | more hitem =>
      rw [List.append_assoc]
      exact hpart hitem

/-- An import does not go on after its blanks where no clause starts. -/
theorem Statement.Opens.prefix_blank {start rest blank next : List Char} (h : Opens start)
    (hsplit : "import".toList ++ (blank ++ next) = start ++ rest)
    (hblank : ∀ x ∈ blank, isBlank x = true) (hnext : ∀ x ∈ next.head?, isBlank x = false)
    (hclause : blank ≠ [] → ∀ x ∈ next.head?, x ≠ '\x7b' ∧ run.contains x = false) :
    ∃ s t, start = "import".toList ++ s ∧ blank = s ++ t ∧ rest = t ++ next := by
  obtain ⟨⟨s, rfl⟩, later, himport⟩ := h
  rw [List.append_assoc] at hsplit
  rcases List.append_eq_append_iff.mp (List.append_cancel_left hsplit) with
    ⟨t, rfl, ht⟩ | ⟨t, rfl, ht⟩
  · cases t with
    | nil => exact ⟨blank, [], by simp, by simp, by simpa using ht.symm⟩
    | cons y t =>
        -- The first character after the blanks would be the first one of a clause.
        have hy : isBlank y = false := hnext y (by rw [ht]; rfl)
        generalize htext : "import".toList ++ (blank ++ y :: t) ++ later = text at himport
        cases himport with
        | @intro blank' clause hne hblank' hclause' =>
            obtain ⟨z, r, hz, rfl⟩ := hclause'.head
            have hzblank : isBlank z = false := by
              rcases hz with rfl | hz
              · decide
              · exact isBlank_of_run hz
            have heq : blank ++ y :: (t ++ later) = blank' ++ z :: (r ++ "from".toList) := by
              rw [List.append_assoc] at htext
              simpa using List.append_cancel_left htext
            obtain ⟨rfl, rfl, -⟩ := eq_of_append_of_ends hblank hblank' hy hzblank heq
            obtain ⟨hbrace, hrun⟩ := hclause hne y (by rw [ht]; rfl)
            rcases hz with hz | hz
            · exact absurd hz hbrace
            · rw [hrun] at hz
              cases hz
  · exact ⟨s, t, rfl, rfl, ht⟩

/-- The word `import` is idle where neither a clause nor another statement follows. -/
theorem idle_of_next {blank next : List Char} {y : Char} (hblank : ∀ x ∈ blank, isBlank x = true)
    (hy : next.head? = some y) (hsolid : isBlank y = false)
    (hclause : blank ≠ [] → y ≠ '\x7b' ∧ run.contains y = false)
    (hfree : ∀ w ∈ heads, ¬w <+: next) : Idle ("import".toList ++ (blank ++ next)) where
  apart start rest hsplit hopens w hw hstart := by
    obtain ⟨s, t, -, rfl, rfl⟩ := hopens.prefix_blank hsplit hblank (by simpa [hy] using hsolid)
      (by simpa [hy] using hclause)
    cases t with
    | nil => exact hfree w hw hstart
    | cons x t =>
        obtain ⟨hne, hword⟩ := words_heads w hw
        have hhead : isWord x = true := isWord_head hne hword hstart
        rw [isWord_of_isBlank (hblank x (by simp))] at hhead
        cases hhead
  unread start rest hsplit himport := by
    obtain ⟨s, t, rfl, rfl, rfl⟩ :=
      himport.opens.prefix_blank hsplit hblank (by simpa [hy] using hsolid)
      (by simpa [hy] using hclause)
    generalize htext : "import".toList ++ s = text at himport
    cases himport with
    | @intro blank clause _ _ _ =>
        obtain rfl := List.append_cancel_left htext
        exact absurd (hblank 'f' (by simp)) (by decide)

/-- The word `import` need only be looked up where it stands. -/
theorem importsSettled_of_positions {text : List Char} (positions : List Nat)
    (hall : ∀ n ≤ text.length, "import".toList <+: text.drop n → n ∈ positions)
    (hsettled : ∀ n ∈ positions, HasLine (text.drop n) ∨ Idle (text.drop n)) :
    ImportsSettled text := by
  intro before rest hsplit hstart
  have hdrop : text.drop before.length = rest := by rw [hsplit, List.drop_left]
  have hlength : before.length ≤ text.length := by
    rw [hsplit, List.length_append]
    exact Nat.le_add_right _ _
  rw [← hdrop] at hstart ⊢
  exact hsettled _ (hall _ hlength hstart)

/-- A script with an import over several lines, a name that starts with `import`, a call of it, and
an import of nothing but a file. -/
def importingScript : List Char :=
  "import a, \x7b\n\tb\n\x7d from './a'\nvar important = import('./b');\nimport './c'".toList

theorem importsSettled_importingScript : ImportsSettled importingScript := by
  refine importsSettled_of_positions [0, 32, 44, 59] (by decide +kernel) ?_
  have hlist : importingScript.drop 0 =
      ("import".toList ++
        ([' '] ++ (("a,".toList ++ [' '] ++ ('\x7b' :: ("\n\tb\n".toList ++ ['\x7d']) ++ [' '])) ++
        "from".toList))) ++ ' ' :: importingScript.drop 22 := by decide
  have hname : importingScript.drop 32 = "import".toList ++ ([] ++ importingScript.drop 38) := by
    decide
  have hcall : importingScript.drop 44 = "import".toList ++ ([] ++ importingScript.drop 50) := by
    decide
  have hfile : importingScript.drop 59 = "import".toList ++ ([' '] ++ importingScript.drop 66) := by
    decide
  have hletters : "a,".toList.all run.contains = true ∧ "\n\tb\n".toList.all listed.contains =
      true := by decide
  have hclause :
      IsClause ("a,".toList ++ [' '] ++ ('\x7b' :: ("\n\tb\n".toList ++ ['\x7d']) ++ [' '])) :=
    .more (.names (by decide) (List.all_eq_true.mp hletters.1)) (by decide) (by simp [isBlank])
      (.last (.list (by decide) (List.all_eq_true.mp hletters.2)) (by decide) (by simp [isBlank]))
  simp only [List.forall_mem_cons, List.not_mem_nil, false_implies, implies_true, and_true]
  refine ⟨.inl ⟨_, _, _, .intro (by decide) (by simp [isBlank]) hclause, by decide, hlist⟩, .inr ?_,
    .inr ?_, .inr ?_⟩
  · rw [hname]
    exact idle_of_next (y := 'a') (by simp) (by decide) (by decide) (by simp) (by decide)
  · rw [hcall]
    exact idle_of_next (y := '(') (by simp) (by decide) (by decide) (by simp) (by decide)
  · rw [hfile]
    exact idle_of_next (y := '\x27') (by simp [isBlank]) (by decide) (by decide)
      (fun _ => by decide) (by decide)

end Samples

theorem explicitItems_moduleStatements_script :
    ImportsSettled importingScript ∧
    (∃ rest, Rule.applyAll Rule.moduleStatements importingScript = .ok rest ∧
      Import.explicitItems rest = []) ∧
    Rule.applyAll Rule.moduleStatements "import a from\n'./a'".toList =
      .ok "import a from\n'./a'".toList := by
  refine ⟨importsSettled_importingScript,
    (explicitItems_moduleStatements importingScript).1 importsSettled_importingScript, ?_⟩
  have hnone : importLine.matchAt false (.start "import a from\n'./a'".toList) = none := by
    decide +kernel
  have hstarts : ∀ b ∈ "mport a from\n'./a'".toList.tails, ¬Starts b := by decide
  refine (explicitItems_moduleStatements _).2 (by decide) ?_ fun b hb =>
    hstarts b ((List.mem_tails b _).mpr hb)
  intro hline
  exact matchAt_importLine_ne_none (c := .start _) hline hnone

/-- An import with its source on the next line is left, and three are brought about: by a list of
exports among the names of another import, by an import right after the first word of another, and
by one right after its names. -/
theorem imports_left_by_rules :
    (∃ rest, Rule.applyAll Rule.moduleStatements "import a from\n'./a.js'".toList = .ok rest ∧
      Import.explicitItems rest = ["a".toList]) ∧
    (∃ rest, Rule.applyAll Rule.moduleStatements "import \x7bexport\x7ba\x7db\x7d from 'x'".toList =
      .ok rest ∧
      Import.explicitItems rest = ["b".toList]) ∧
    (∃ rest, Rule.applyAll Rule.moduleStatements "importimport b from 'c'\n a from 'x'".toList =
      .ok rest ∧
      Import.explicitItems rest = ["a".toList]) ∧
    ∃ rest, Rule.applyAll Rule.moduleStatements
      "import \x7ba\x7dimport b from 'c'\nfrom 'x'".toList = .ok rest ∧
      Import.explicitItems rest = ["a".toList] := by
  refine ⟨⟨"import a from\n'./a.js'".toList, ?_⟩, ⟨"import \x7bb\x7d from 'x'".toList, ?_⟩,
    ⟨"import\n a from 'x'".toList, ?_⟩, "import \x7ba\x7d\nfrom 'x'".toList, ?_⟩
  · decide +kernel
  · decide +kernel
  · decide +kernel
  · decide +kernel

end ScriptModules
