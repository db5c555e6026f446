import ScriptModules.Proofs.Export.RoundTrip
import ScriptModules.Proofs.Import.Clause
import ScriptModules.Proofs.Pattern.Words
import ScriptModules.Proofs.Rule.Apply

/-!
# What is left of module statements

The rules for module statements strip import lines, the word `export` before a declaration, and
lists of exports. A rule may not know a statement that is read as one, and what it removes may bring
a new one about. Neither happens where the word `export` is followed by a keyword after a single
blank, by a list of names or by nothing that starts a statement. Each rule keeps that property for
the keywords that it does not strip, and after the last rule nothing is read.
-/

namespace ScriptModules

open Pattern Pattern.Node Text

namespace Statement

/-- The characters of a source that is removed with its list. -/
abbrev sourced : CharSet := .identOr ['.', '/', '-']

/-- A source that is removed with its list. -/
def plainSource : Node := sequence [
  word "from", blanks, .set quotes, oneOrMore (.set sourced), .set quotes]

/-- The words with which module statements start. -/
def heads : List (List Char) := ["import".toList, "export".toList]

/-- A module statement may start here: after its first word there is a blank or a brace. -/
def Starts (text : List Char) : Prop :=
  ∃ w ∈ heads, w <+: text ∧ (text.drop w.length).head?.any (fun x => isBlank x || x == '\x7b') =
    true

instance (text : List Char) : Decidable (Starts text) :=
  inferInstanceAs (Decidable (∃ w ∈ heads, w <+: text ∧
    (text.drop w.length).head?.any (fun x => isBlank x || x == '\x7b') = true))

/-- The keywords of the declarations that may be exported. -/
def keywords : List String := ["var", "function", "let", "const", "class"]

/-- No statement follows: after blanks there is neither a brace nor a keyword nor the start of
another statement. -/
def Inert (rest : List Char) : Prop :=
  ∃ blank next, rest = blank ++ next ∧ (∀ x ∈ blank, isBlank x = true) ∧
    (∀ x ∈ next.head?, isBlank x = false ∧ x ≠ '\x7b') ∧
      ∀ w ∈ keywords.map (·.toList) ++ heads, ¬w <+: next

/-- What follows the word `export` where the rules leave nothing behind that is read as a
statement. -/
inductive Strippable (keywords : List String) : List Char → Prop where
  /-- One of the keywords, after a single blank and as a whole word. -/
  | declaration {keyword : String} {next : List Char} (hkeyword : keyword ∈ keywords)
      (hnext : next.head?.any isWord = false) :
        Strippable keywords (' ' :: (keyword.toList ++ next))
  /-- A list of names in which no other statement starts. -/
  | list {blank inside next : List Char} (hblank : ∀ x ∈ blank, isBlank x = true)
      (hne : inside ≠ [])
      (hinside : ∀ x ∈ inside, listed.contains x = true) (hfree : ∀ b, b <:+ inside → ¬Starts b) :
      Strippable keywords (blank ++ '\x7b' :: (inside ++ '\x7d' :: next))
  | other {rest : List Char} (h : Inert rest) : Strippable keywords rest

end Statement

open Statement

/-- Wherever the text holds the word `export`, an identifier character or a dot stands right before
it, or `P` holds of what follows. -/
def ExportsFollowedBy (P : List Char → Prop) (text : List Char) : Prop :=
  ∀ before rest, text = before ++ ("export".toList ++ rest) →
    before.getLast?.any glued.contains = true ∨ P rest

/-- The matches of a pattern lie apart from the word `export`. -/
abbrev Strips (n : Node) (f : Match → List Char) : Prop :=
  n.Severs f Starts "export".toList glued.contains

theorem isWord_of_isBlank {x : Char} (h : isBlank x = true) : isWord x = false := by
  have hident := isIdent_of_isBlank h
  rw [isIdent, Bool.or_eq_false_iff] at hident
  exact hident.1

theorem words_heads : ∀ w ∈ heads, w ≠ [] ∧ ∀ x ∈ w, isWord x = true := by
  have hall : heads.all (fun w => !w.isEmpty && w.all isWord) = true := by decide
  simpa using hall

theorem starts_append {w : List Char} {x : Char} {rest : List Char} (hw : w ∈ heads)
    (hx : isBlank x = true ∨ x = '\x7b') : Starts (w ++ x :: rest) :=
  ⟨w, hw, List.prefix_append w _, by simpa using hx⟩

theorem Statement.Starts.exists_eq {text : List Char} (h : Starts text) :
    ∃ w ∈ heads, ∃ x rest, (isBlank x = true ∨ x = '\x7b') ∧ text = w ++ x :: rest := by
  obtain ⟨w, hw, ⟨r, rfl⟩, hx⟩ := h
  rw [List.drop_left] at hx
  cases r with
  | nil => cases hx
  | cons x r => exact ⟨w, hw, x, r, by simpa using hx, rfl⟩

theorem Statement.Starts.isWord {text : List Char} (h : Starts text) :
    text.head?.any isWord = true := by
  obtain ⟨w, hw, hstart, -⟩ := h
  obtain ⟨hne, hword⟩ := words_heads w hw
  exact isWord_head hne hword hstart

/-- Nothing starts right before a closing brace. -/
theorem Statement.Starts.of_append {inside next : List Char}
    (h : Starts (inside ++ '\x7d' :: next)) :
    Starts inside := by
  obtain ⟨w, hw, x, rest, hx, heq⟩ := h.exists_eq
  rcases List.append_eq_append_iff.mp heq with ⟨t, rfl, ht⟩ | ⟨t, rfl, ht⟩
  · cases t with
    | nil =>
        obtain rfl : '\x7d' = x := (List.cons.inj ht).1
        exact absurd hx (by decide)
    | cons y t =>
        obtain rfl : '\x7d' = y := (List.cons.inj ht).1
        exact absurd ((words_heads _ hw).2 '\x7d' (by simp)) (by decide)
  · cases t with
    | nil =>
        obtain rfl : x = '\x7d' := (List.cons.inj ht).1
        exact absurd hx (by decide)
    | cons y t =>
        obtain rfl : x = y := (List.cons.inj ht).1
        exact starts_append hw hx

theorem word_of_mem_keywords {keyword : String} (h : keyword ∈ keywords) :
    keyword.toList ≠ [] ∧ ∀ x ∈ keyword.toList, isWord x = true := by
  have hall : keywords.all (fun k => !k.toList.isEmpty && k.toList.all isWord) = true := by decide
  simpa using List.all_eq_true.mp hall keyword h

theorem not_infix_keyword {keyword : String} (h : keyword ∈ keywords) :
    ∀ w ∈ heads, ¬w <:+: ' ' :: keyword.toList := by
  have hall : ∀ k ∈ keywords, ∀ w ∈ heads, ¬w <:+: ' ' :: k.toList := by decide
  exact hall keyword h

section Replacing

variable {n : Node} {f : Match → List Char} {c : Cursor} {rest : List Char}

/-- A property of what follows the word `export` goes over to the outcome of a rule, if it does
wherever the rule has no match. -/
theorem ExportsFollowedBy.replaced {P Q : List Char → Prop} {text : List Char} (hn : Strips n f)
    (h : ExportsFollowedBy P text)
    (hstep : ∀ {c rest}, c.Clear → c.after = "export".toList ++ rest → n.matchAt false c = none →
      P rest → Q (n.replacedAt f (c.beyond "export".toList))) :
    ExportsFollowedBy Q (n.replace none f text) := by
  rw [replace_eq_replacedAt hn.advances]
  intro before rest hsplit
  obtain ⟨hne, hword⟩ := words_heads "export".toList (by decide)
  obtain ⟨a, e, hlead, hnone, ⟨next, hnext⟩, rfl, hglued⟩ :=
    @Severs.exists_occurrence n f Starts _ _ _ hn hne hword none _ _ hsplit (by simp [Cursor.start])
  have hbefore : e.before.head? = a.getLast? := by
    rw [hlead.before]
    simp [Cursor.start]
  cases hclear : e.before.head?.any glued.contains with
  | true => exact .inl (by simpa using hglued hclear)
  | false =>
      rcases h a next (by rw [hnext]; exact hlead.after) with hleft | hP
      · rw [← hbefore, hclear] at hleft
        cases hleft
      · exact .inr (hstep hclear hnext.symm hnone hP)

theorem Statement.Inert.replaced (hn : Strips n f) (h : Inert c.after) :
    Inert (n.replacedAt f c) := by
  obtain ⟨blank, next, hsplit, hblank, hhead, hfree⟩ := h
  have hafter : (c.beyond blank).after = next := Cursor.after_beyond hsplit
  have hnone : n.matchAt false (c.beyond blank) = none := by
    apply hn.matchAt_eq_none_of_not_start
    rw [hafter]
    rintro ⟨w, hw, hstart, -⟩
    exact hfree w (List.mem_append_right _ hw) hstart
  rw [hn.replacedAt_append_of_forall hsplit fun x hx => isWord_of_isBlank (hblank x hx)]
  refine ⟨blank, _, rfl, hblank, ?_, fun w hw hstart => ?_⟩
  · rw [Node.head?_replacedAt hn.advances hnone, hafter]
    exact hhead
  · obtain ⟨q, hq⟩ := hstart
    have hword : ∀ x ∈ w, isWord x = true := by
      rcases List.mem_append.mp hw with hw | hw
      · obtain ⟨keyword, hkeyword, rfl⟩ := List.mem_map.mp hw
        exact (word_of_mem_keywords hkeyword).2
      · exact (words_heads w hw).2
    have hprefix := (hn.exists_of_replacedAt hword (fun _ => hnone) hq.symm).1
    rw [hafter] at hprefix
    exact hfree w hw hprefix

/-- What follows the word `export` stays strippable, without the keywords that the rule takes
away. -/
theorem Statement.Strippable.replaced {before after : List String} (hn : Strips n f)
    (h : Strippable before c.after) (hbefore : before ⊆ keywords)
    (hdone : ∀ keyword ∈ before, ∀ next : List Char, next.head?.any isWord = false →
      c.after = ' ' :: (keyword.toList ++ next) → keyword ∈ after) :
    Strippable after (n.replacedAt f c) := by
  generalize hc : c.after = rest at h
  cases h with
  | @declaration keyword next hkeyword hnext =>
      have hsplit : c.after = (' ' :: keyword.toList) ++ next := hc
      have hcopied : ∀ b, b <:+ ' ' :: keyword.toList → b ≠ [] → ¬Starts (b ++ next) := by
        rintro b hb - ⟨w, hw, hstart, -⟩
        have hwithin := prefix_of_prefix_append (words_heads w hw).2 hnext hstart
        exact not_infix_keyword (hbefore hkeyword) w hw (hwithin.isInfix.trans hb.isInfix)
      rw [hn.replacedAt_append hsplit hcopied]
      refine .declaration (hdone keyword hkeyword next hnext hc) ?_
      exact hn.head?_replacedAt (by rw [Cursor.after_beyond hsplit, hnext])
  | @list blank inside next hblank hne hinside hfree =>
      have hopen : c.after = (blank ++ ['\x7b']) ++ (inside ++ '\x7d' :: next) := by rw [hc]; simp
      have hafter := Cursor.after_beyond hopen
      have hclose : ((c.beyond (blank ++ ['\x7b'])).beyond inside).after = ['\x7d'] ++ next :=
        Cursor.after_beyond hafter
      have hbraces : isWord '\x7b' = false ∧ isWord '\x7d' = false := by decide
      have hfirst : ∀ x ∈ blank ++ ['\x7b'], isWord x = false := by
        intro x hx
        rcases List.mem_append.mp hx with hx | hx
        · exact isWord_of_isBlank (hblank x hx)
        · rw [List.mem_singleton.mp hx]
          exact hbraces.1
      rw [hn.replacedAt_append_of_forall hopen hfirst,
        hn.replacedAt_append hafter fun b hb _ hstart => hfree b hb hstart.of_append,
        hn.replacedAt_append_of_forall hclose (by simpa using hbraces.2)]
      simpa using Strippable.list hblank hne hinside hfree
  | other h => exact .other (Inert.replaced hn (hc ▸ h))

end Replacing

section Rules

variable {c d : Cursor} {k : Node} {f : Match → List Char} {words : List String}

theorem Pattern.Cursor.Clear.isWord (h : c.Clear) : c.before.head?.any isWord = false := by
  cases hx : c.before.head? with
  | none => rfl
  | some x =>
      rw [Cursor.Clear, hx, Option.any_some, CharSet.contains_identOr, isIdent] at h
      simp only [Bool.or_eq_false_iff] at h
      exact h.1.1

/-- At the edge of a word before the word `export`, no word character stands right before. -/
theorem not_isWord_of_wordEdge (hedge : d ∈ wordEdge.ways c)
    (hstart : "export".toList <+: c.after) :
    c.before.head?.any isWord = false := by
  obtain ⟨hedge, -⟩ := mem_ways_anchor.mp hedge
  obtain ⟨hne, hword⟩ := words_heads "export".toList (by decide)
  rw [Cursor.holds_boundary, isWord_head hne hword hstart] at hedge
  simpa using hedge

/-- A word that was passed over stands right before. -/
theorem isWord_before_of_leads {w : List Char} (h : c.Leads d w)
    (hw : w ≠ [] ∧ ∀ x ∈ w, isWord x = true) :
    d.before.head?.any isWord = true := by
  rw [h.before, List.head?_append, List.head?_reverse, List.getLast?_eq_some_getLast hw.1]
  exact hw.2 _ (List.getLast_mem hw.1)

/-- An import ends at the end of its line. -/
theorem strips_importLine : Strips importLine fun _ => [] where
  advances := advances_seq_left (advances_word (by decide))
  word := Starts.isWord
  starts {c m} h := by
    obtain ⟨c₁, hword, h⟩ := mem_ways_seq.mp (matchAt_sound h).2
    obtain ⟨c₂, hgap, -⟩ := mem_ways_seq.mp h
    obtain ⟨hafter, -⟩ := passes_word hword
    obtain ⟨blank, hne, hblank, hafter₁⟩ := passes_oneOrMore hgap
    obtain ⟨x, blank, rfl⟩ := List.exists_cons_of_ne_nil hne
    rw [← Cursor.after_fresh, hafter, hafter₁]
    exact starts_append (by decide) (.inl (by simpa using hblank x (by simp)))
  ends {c m} h := by
    obtain ⟨c₁, -, h₁⟩ := (takes_of_matchAt h).exists_of_seq
    obtain ⟨c₂, -, h₂⟩ := h₁.exists_of_seq
    obtain ⟨c₃, -, h₃⟩ := h₂.exists_of_seq
    obtain ⟨c₄, -, h₄⟩ := h₃.exists_of_seq
    have hline := head?_of_takes_oneOrMore_set h₄
    refine .inl ⟨?_, .inl rfl⟩
    cases hx : m.last.after.head? with
    | none => rfl
    | some x =>
        rw [hx, Option.any_some, CharSet.contains_allBut] at hline
        obtain rfl : x = '\n' := by simpa using hline
        decide

/-- The pattern reads one of the keywords, and the keyword takes the place of a match that ends with
it. -/
structure ReadsKeyword (k : Node) (f : Match → List Char) (words : List String) : Prop where
  subset : words ⊆ keywords
  sound : ∀ {c d}, d ∈ k.ways c → ∃ w ∈ words, c.Leads d w.toList ∧ ∀ first, f ⟨first, d⟩ = w.toList
  complete : ∀ {c w}, w ∈ words → w.toList <+: c.after → ∃ d ∈ k.ways c, c.Leads d w.toList

theorem strips_exported (hk : ReadsKeyword k f words) : Strips (exported k) f where
  advances := advances_seq_right (advances_seq_left (advances_word (by decide)))
  word := Starts.isWord
  starts {c m} h := by
    obtain ⟨c₁, hedge, h⟩ := mem_ways_seq.mp (matchAt_sound h).2
    obtain ⟨-, rfl⟩ := mem_ways_anchor.mp hedge
    obtain ⟨c₂, hword, h⟩ := mem_ways_seq.mp h
    obtain ⟨c₃, hspace, -⟩ := mem_ways_seq.mp h
    rw [← Cursor.after_fresh, (passes_word hword).1, (passes_char hspace).1]
    exact starts_append (by decide) (.inl (by decide))
  ends {c m} h := by
    obtain ⟨hfirst, hway⟩ := matchAt_sound h
    obtain ⟨c₁, hedge, hway⟩ := mem_ways_seq.mp hway
    obtain ⟨-, rfl⟩ := mem_ways_anchor.mp hedge
    obtain ⟨c₂, hword, hway⟩ := mem_ways_seq.mp hway
    obtain ⟨c₃, -, hway⟩ := mem_ways_seq.mp hway
    obtain ⟨c₄, hkeyword, hway⟩ := mem_ways_seq.mp hway
    obtain ⟨hfinish, rfl⟩ := mem_ways_anchor.mp hway
    obtain ⟨w, hw, hlead, hf⟩ := hk.sound hkeyword
    have hm : f m = w.toList := hf m.first
    have hbefore := not_isWord_of_wordEdge hedge (mem_ways_word.mp hword).1
    have hlast := isWord_before_of_leads hlead (word_of_mem_keywords (hk.subset hw))
    refine .inl ⟨?_, .inr ⟨hbefore, ?_⟩⟩
    · rw [Cursor.holds_boundary, hlast] at hfinish
      simpa using hfinish
    · rw [hm]
      intro hwithin
      exact not_infix_keyword (hk.subset hw) _ (by simp [heads])
        (hwithin.trans (List.suffix_cons ' ' _).isInfix)

/-- Where a statement may start, its first word starts at the edge of a word. -/
theorem wordEdge_of_clear {rest : List Char} (hc : c.Clear)
    (h : c.after = "export".toList ++ rest) :
    c.fresh.holds (.boundary .unicode) = true := by
  obtain ⟨hne, hword⟩ := words_heads "export".toList (by decide)
  rw [Cursor.holds_boundary, Cursor.before_fresh, Cursor.after_fresh, hc.isWord,
    isWord_head hne hword ⟨rest, h.symm⟩]
  rfl

theorem matchAt_exported_ne_none (hk : ReadsKeyword k f words) {w : String} {next : List Char}
    (hw : w ∈ words) (hc : c.Clear) (hnext : next.head?.any isWord = false)
    (h : c.after = "export".toList ++ ' ' :: (w.toList ++ next)) :
    (exported k).matchAt false c ≠ none := by
  have hexport : c.fresh.after = "export".toList ++ ([' '] ++ (w.toList ++ next)) := h
  have hspace := Cursor.after_beyond hexport
  have hword := Cursor.after_beyond hspace
  obtain ⟨d, hd, hlead⟩ := hk.complete hw ⟨next, hword.symm⟩
  have hfinish : d.holds (.boundary .unicode) = true := by
    have hafter : d.after = next := List.append_cancel_left (hlead.after.symm.trans hword)
    rw [Cursor.holds_boundary, isWord_before_of_leads hlead (word_of_mem_keywords (hk.subset hw)),
      hafter, hnext]
    rfl
  apply matchAt_ne_none (d := d)
  refine mem_ways_seq.mpr ⟨_, mem_ways_anchor.mpr ⟨wordEdge_of_clear hc h, rfl⟩, ?_⟩
  refine mem_ways_seq.mpr ⟨_, mem_ways_word.mpr ⟨⟨_, hexport.symm⟩, rfl⟩, ?_⟩
  refine mem_ways_seq.mpr ⟨_, mem_ways_char.mpr ⟨⟨_, hspace.symm⟩, rfl⟩, ?_⟩
  exact mem_ways_seq.mpr ⟨d, hd, mem_ways_anchor.mpr ⟨hfinish, rfl⟩⟩

/-- A rule for exported declarations leaves the keywords that it does not read. -/
theorem ExportsFollowedBy.exported {before : List String} {text : List Char} (after : List String)
    (hk : ReadsKeyword k f words) (h : ExportsFollowedBy (Strippable before) text)
    (hbefore : before ⊆ keywords) (hall : ∀ w ∈ before, w ∈ words ∨ w ∈ after) :
    ExportsFollowedBy (Strippable after) ((exported k).replace none f text) := by
  refine h.replaced (strips_exported hk) fun hc hafter hnone hrest => ?_
  have hbeyond := Cursor.after_beyond hafter
  refine Strippable.replaced (strips_exported hk) (by rwa [hbeyond]) hbefore
    fun w hw next hnext hsplit => ?_
  rcases hall w hw with hread | hleft
  · rw [hbeyond] at hsplit
    rw [hsplit] at hafter
    exact absurd hnone (matchAt_exported_ne_none hk hread hc hnext hafter)
  · exact hleft

theorem eq_false_of_quotes {p : Char → Bool} {x : Char} (h : quotes.contains x = true)
    (hp : p '\x27' = false ∧ p '"' = false) : p x = false := by
  have hquote : x = '\x27' ∨ x = '"' := by
    simpa [quotes, CharSet.contains, SetItem.holds, CaseRule.agree] using h
  rcases hquote with rfl | rfl
  · exact hp.1
  · exact hp.2

theorem starts_of_mem_ways_exportList (h : d ∈ exportList.ways c) :
    c.before.head?.any isWord = false ∧ Starts c.after := by
  obtain ⟨c₁, hedge, h⟩ := mem_ways_seq.mp h
  obtain ⟨-, rfl⟩ := mem_ways_anchor.mp hedge
  obtain ⟨c₂, hword, h⟩ := mem_ways_seq.mp h
  obtain ⟨c₃, hlead, h⟩ := mem_ways_seq.mp h
  obtain ⟨c₄, hnames, -⟩ := mem_ways_seq.mp h
  obtain ⟨lead, hlead, hafter, -⟩ := passes_blanks hlead
  obtain ⟨inside, -, -, ⟨r, hr⟩, -⟩ := mem_ways_nameList.mp hnames
  refine ⟨not_isWord_of_wordEdge hedge (mem_ways_word.mp hword).1, ?_⟩
  rw [(passes_word hword).1, hafter, ← hr]
  cases lead with
  | nil => exact starts_append (by decide) (.inr rfl)
  | cons x lead => exact starts_append (by decide) (.inl (hlead x (by simp)))

/-- A source ends with a quote. -/
theorem clear_of_mem_ways_plainSource (h : d ∈ plainSource.ways c) : d.Clear := by
  obtain ⟨c₁, -, h⟩ := mem_ways_seq.mp h
  obtain ⟨c₂, -, h⟩ := mem_ways_seq.mp h
  obtain ⟨c₃, -, h⟩ := mem_ways_seq.mp h
  obtain ⟨c₄, -, h⟩ := mem_ways_seq.mp h
  obtain ⟨x, hx, -, rfl⟩ := mem_ways_set.mp h
  simpa [Cursor.Clear] using eq_false_of_quotes (p := glued.contains) hx (by decide)

/-- A list ends with its brace, a blank, a quote or a semicolon. -/
theorem clear_of_mem_ways_exportList (h : d ∈ exportList.ways c) : d.Clear := by
  obtain ⟨c₁, -, h⟩ := mem_ways_seq.mp h
  obtain ⟨c₂, -, h⟩ := mem_ways_seq.mp h
  obtain ⟨c₃, -, h⟩ := mem_ways_seq.mp h
  obtain ⟨c₄, hnames, h⟩ := mem_ways_seq.mp h
  obtain ⟨c₅, hblanks, h⟩ := mem_ways_seq.mp h
  obtain ⟨c₆, hsource, hstop⟩ := mem_ways_seq.mp h
  have hmarks : glued.contains '\x7d' = false ∧ glued.contains ';' = false := by decide
  have hlist : c₄.Clear := by
    obtain ⟨inside, -, -, -, rfl⟩ := mem_ways_nameList.mp hnames
    simpa [Cursor.Clear] using hmarks.1
  have hspaced : c₅.Clear := by
    obtain ⟨blank, -, hall, rfl⟩ := mem_ways_many_set.mp hblanks
    exact clear_beyond_blanks hlist (by simpa using hall)
  have hquoted : c₆.Clear := by
    rcases mem_ways_optional.mp hsource with hsource | rfl
    · exact clear_of_mem_ways_plainSource hsource
    · exact hspaced
  rcases mem_ways_optional.mp hstop with hstop | rfl
  · obtain ⟨-, rfl⟩ := mem_ways_char.mp hstop
    simpa [Cursor.Clear] using hmarks.2
  · exact hquoted

theorem strips_exportList : Strips exportList fun _ => [] where
  advances := advances_seq_right (advances_seq_left (advances_word (by decide)))
  word := Starts.isWord
  starts {c m} h := (starts_of_mem_ways_exportList (matchAt_sound h).2).2
  ends {c m} h := by
    have hway := (matchAt_sound h).2
    exact .inr ⟨rfl, (starts_of_mem_ways_exportList hway).1, clear_of_mem_ways_exportList hway⟩

theorem matchAt_exportList_ne_none {blank inside next : List Char} (hc : c.Clear)
    (hblank : ∀ x ∈ blank, isBlank x = true) (hne : inside ≠ [])
    (hinside : ∀ x ∈ inside, listed.contains x = true)
    (h : c.after = "export".toList ++ (blank ++ '\x7b' :: (inside ++ '\x7d' :: next))) :
    exportList.matchAt false c ≠ none := by
  have hexport :
      c.fresh.after = "export".toList ++ (blank ++ ('\x7b' :: (inside ++ ['\x7d']) ++ next)) := by
    rw [Cursor.after_fresh, h]
    simp
  have hspace := Cursor.after_beyond hexport
  have hnames := Cursor.after_beyond hspace
  apply matchAt_ne_none
    (d := ((c.fresh.beyond "export".toList).beyond blank).beyond ('\x7b' :: (inside ++ ['\x7d'])))
  refine mem_ways_seq.mpr ⟨_, mem_ways_anchor.mpr ⟨wordEdge_of_clear hc h, rfl⟩, ?_⟩
  refine mem_ways_seq.mpr ⟨_, mem_ways_word.mpr ⟨⟨_, hexport.symm⟩, rfl⟩, ?_⟩
  refine mem_ways_seq.mpr
    ⟨_, mem_ways_many_set.mpr ⟨blank, ⟨_, hspace.symm⟩, by simpa using hblank, rfl⟩, ?_⟩
  refine mem_ways_seq.mpr
    ⟨_, mem_ways_nameList.mpr ⟨inside, hne, hinside, ⟨_, hnames.symm⟩, rfl⟩, ?_⟩
  refine mem_ways_seq.mpr
    ⟨_, mem_ways_many_set.mpr ⟨[], List.nil_prefix, by simp, (Cursor.beyond_nil _).symm⟩, ?_⟩
  exact mem_ways_seq.mpr ⟨_, mem_ways_optional.mpr (.inr rfl), mem_ways_optional.mpr (.inr rfl)⟩

/-- After the rule for lists nothing follows the word `export` that is read as a statement. -/
theorem ExportsFollowedBy.exportList {text : List Char}
    (h : ExportsFollowedBy (Strippable []) text) :
    ExportsFollowedBy Inert (Statement.exportList.remove text) := by
  refine h.replaced strips_exportList fun {c rest} hc hafter hnone hrest => ?_
  cases hrest with
  | declaration hkeyword _ => cases hkeyword
  | list hblank hne hinside hfree =>
      exact absurd hnone (matchAt_exportList_ne_none hc hblank hne hinside hafter)
  | other hinert => exact Inert.replaced strips_exportList (by rwa [Cursor.after_beyond hafter])

/-- Nothing that starts a statement stands after the blanks. -/
theorem Statement.Inert.not_starts {blank next : List Char} (h : Inert (blank ++ next))
    (hblank : ∀ x ∈ blank, isBlank x = true) (hnext : ∀ x ∈ next.head?, isBlank x = false) :
    next.head? ≠ some '\x7b' ∧ ∀ w ∈ keywords, ¬w.toList <+: next := by
  obtain ⟨blank', next', hsplit, hblank', hhead, hfree⟩ := h
  have hsame : blank = blank' := by
    rw [← takeWhile_append_of_head hblank hnext, hsplit,
      takeWhile_append_of_head hblank' fun x hx => (hhead x hx).1]
  subst hsame
  obtain rfl := List.append_cancel_left hsplit
  refine ⟨fun hbrace => (hhead _ hbrace).2 rfl, fun w hw => ?_⟩
  exact hfree _ (List.mem_append_left _ (List.mem_map_of_mem hw))

/-- A declaration starts with one of the keywords. -/
theorem exists_keyword_of_mem_ways {n : Node}
    (h : d ∈ (Node.seq (choice [word "var", word "let", word "const",
      Node.sequence [word "function", blanks, optional (char '*')], word "class"]) n).ways c) :
    ∃ w ∈ keywords, w.toList <+: c.after := by
  obtain ⟨e, he, -⟩ := mem_ways_seq.mp h
  rcases mem_ways_alt.mp he with he | he
  · exact ⟨"var", by decide, (mem_ways_word.mp he).1⟩
  rcases mem_ways_alt.mp he with he | he
  · exact ⟨"let", by decide, (mem_ways_word.mp he).1⟩
  rcases mem_ways_alt.mp he with he | he
  · exact ⟨"const", by decide, (mem_ways_word.mp he).1⟩
  rcases mem_ways_alt.mp he with he | he
  · obtain ⟨e, he, -⟩ := mem_ways_seq.mp he
    exact ⟨"function", by decide, (mem_ways_word.mp he).1⟩
  · exact ⟨"class", by decide, (mem_ways_word.mp he).1⟩

/-- A statement is read only where something follows that starts one. -/
theorem matchAt_exportStatement_eq_none
    (h : c.Clear → ∀ rest, c.after = "export".toList ++ rest → Inert rest) :
    Statement.exportStatement.matchAt false c = none := by
  rw [matchAt_eq_none_iff, List.eq_nil_iff_forall_not_mem]
  intro d hd
  obtain ⟨e, he, hd⟩ := mem_ways_seq.mp hd
  obtain ⟨hclear, rfl⟩ := mem_ways_notBehind.mp he
  obtain ⟨e, he, hd⟩ := mem_ways_seq.mp hd
  obtain ⟨⟨rest, hrest⟩, rfl⟩ := mem_ways_word.mp he
  have hinert := h hclear rest hrest.symm
  have hafter := Cursor.after_beyond hrest.symm
  obtain ⟨e, he, hd⟩ := mem_ways_seq.mp hd
  obtain ⟨blank, ⟨next, hnext⟩, hblank, rfl⟩ := mem_ways_many_set.mp he
  rw [hafter] at hnext
  rw [← hnext] at hinert hafter
  have hlast := Cursor.after_beyond hafter
  rcases mem_ways_alt.mp hd with hd | hd
  · obtain ⟨e, he, -⟩ := mem_ways_seq.mp hd
    obtain ⟨e, he, -⟩ := mem_ways_seq.mp he
    obtain ⟨⟨r, hr⟩, -⟩ := mem_ways_char.mp he
    rw [hlast] at hr
    have hbrace := (hinert.not_starts (by simpa using hblank) (by simp [← hr, isBlank])).1
    exact hbrace (by rw [← hr]; rfl)
  · obtain ⟨w, hw, hstart⟩ := exists_keyword_of_mem_ways hd
    rw [hlast] at hstart
    have hsolid : ∀ x ∈ next.head?, isBlank x = false := by
      intro x hx
      obtain ⟨hne, hword⟩ := word_of_mem_keywords hw
      have hhead := isWord_head hne hword hstart
      rw [Option.mem_def.mp hx, Option.any_some] at hhead
      exact isBlank_of_isIdent (by simp [isIdent, hhead])
    exact (hinert.not_starts (by simpa using hblank) hsolid).2 w hw hstart

theorem fromStatements_eq_nil {text : List Char} (baseName : String)
    (h : ExportsFollowedBy Inert text) :
    Export.fromStatements baseName text = pure [] := by
  have hnone : Statement.exportStatement.allMatches text = [] := by
    refine allMatches_eq_nil advances_exportStatement fun a b hab =>
      matchAt_exportStatement_eq_none ?_
    intro hclear rest hrest
    have hafter : ((Cursor.start text).beyond a).after = b := Cursor.after_beyond hab
    rcases h a rest (by rw [hab, ← hrest, hafter]) with hglued | hinert
    · rw [Cursor.Clear, Cursor.before_beyond, List.head?_append, List.head?_reverse] at hclear
      simp [hglued, Cursor.start] at hclear
    · exact hinert
  rw [Export.fromStatements, hnone]
  rfl

theorem readsKeyword_word {w : String} (hw : w ∈ keywords) :
    ReadsKeyword (word w) (fun _ => w.toList) [w] where
  subset := by simpa using hw
  sound {c d} h := by
    obtain ⟨hstart, rfl⟩ := mem_ways_word.mp h
    exact ⟨w, by simp, Cursor.leads_beyond hstart, fun _ => rfl⟩
  complete {c v} hv hstart := by
    obtain rfl := List.mem_singleton.mp hv
    exact ⟨_, mem_ways_word.mpr ⟨hstart, rfl⟩, Cursor.leads_beyond hstart⟩

/-- The keywords that one rule takes together. -/
def sharedKeywords : List String := ["let", "const", "class"]

theorem mem_ways_sharedKeywords : d ∈ (choice [word "let", word "const", word "class"]).ways c ↔
    ∃ w ∈ sharedKeywords, w.toList <+: c.after ∧ d = c.beyond w.toList := by
  have hchoice : choice [word "let", word "const", word "class"] =
      (word "let").alt ((word "const").alt (word "class")) := rfl
  rw [hchoice, mem_ways_alt, mem_ways_alt, mem_ways_word, mem_ways_word, mem_ways_word]
  simp [sharedKeywords]

/-- A rule that takes several keywords writes the one that it captured. -/
theorem readsKeyword_group :
    ReadsKeyword (.group 1 (choice [word "let", word "const", word "class"]))
    (Template.expand [.group 1]) sharedKeywords where
  subset := by decide
  sound {c d} h := by
    obtain ⟨e, he, rfl⟩ := List.mem_map.mp h
    obtain ⟨w, hw, hstart, rfl⟩ := mem_ways_sharedKeywords.mp he
    have hlead := Cursor.leads_beyond hstart
    refine ⟨w, hw, ⟨hlead.after, hlead.before, hlead.pos⟩, fun first => ?_⟩
    simp [Template.expand, Match.group, Match.group?, hlead.capture, Cursor.group?]
  complete {c w} hw hstart := by
    have hlead := Cursor.leads_beyond hstart
    exact ⟨_, List.mem_map_of_mem (mem_ways_sharedKeywords.mpr ⟨w, hw, hstart, rfl⟩),
      hlead.after, hlead.before, hlead.pos⟩

theorem ExportsFollowedBy.importLine {text : List Char}
    (h : ExportsFollowedBy (Strippable keywords) text) :
    ExportsFollowedBy (Strippable keywords) (Statement.importLine.remove text) := by
  refine h.replaced strips_importLine fun hc hafter hnone hrest => ?_
  rw [← Cursor.after_beyond hafter] at hrest
  exact hrest.replaced strips_importLine (List.Subset.refl _) fun w hw _ _ _ => hw

end Rules

namespace Rule

/-- The text without import lines and without the word `export` before declarations. -/
def declarationsStripped (text : List Char) : List Char :=
  let text := importLine.remove text
  let text := (exported (word "var")).replace none (fun _ => "var".toList) text
  let text := (exported (word "function")).replace none (fun _ => "function".toList) text
  (exported (.group 1 (choice [word "let", word "const", word "class"]))).replace none
    (Template.expand [.group 1]) text

theorem applyAll_moduleStatements (text : List Char) :
    applyAll moduleStatements text = .ok (exportList.remove (declarationsStripped text)) := by
  simp only [moduleStatements, applyAll_cons, apply_removing, apply_replacing, bind, Except.bind,
    applyAll_nil]
  rfl

end Rule

theorem ExportsFollowedBy.declarationsStripped {text : List Char}
    (h : ExportsFollowedBy (Strippable keywords) text) :
    ExportsFollowedBy (Strippable []) (Rule.declarationsStripped text) := by
  have hvar : "var" ∈ keywords := by decide
  have hfunction : "function" ∈ keywords := by decide
  have h := h.importLine.exported ("function" :: sharedKeywords) (readsKeyword_word hvar)
    (List.Subset.refl _) (by decide)
  have h := h.exported sharedKeywords (readsKeyword_word hfunction) (by decide) (by decide)
  exact h.exported [] readsKeyword_group (by decide) (by decide)

end ScriptModules
