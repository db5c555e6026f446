import ScriptModules.Proofs.Rule.ModuleStatements

/-!
# Lists of exports that are stripped

One pattern reads a list of exports with its source, and another one strips it. Both read the same
list from the same text, but the second asks for names between the braces and for fewer characters
in the source. Main statement: after the rules nothing is read as a statement, where the word
`export` is followed only by what they can strip; and a list that is read as one statement is
stripped as a whole exactly if it holds none but the characters that the rules ask for.
-/

namespace ScriptModules

open Pattern Pattern.Node Text

namespace Statement

/-- What may follow a list: nothing, or the word `from` and characters of a set between quotes. -/
inductive WrittenSource (allowed : CharSet) : Option (List Char) → List Char → Prop
  | absent : WrittenSource allowed none []
  | present {blank source : List Char} {q r : Char} (hblank : ∀ x ∈ blank, isBlank x = true)
      (hq : quotes.contains q = true) (hr : quotes.contains r = true) (hne : source ≠ [])
      (hsource : ∀ x ∈ source, allowed.contains x = true) :
      WrittenSource allowed (some source) ("from".toList ++ (blank ++ q :: (source ++ [r])))

/-- A list of exports and its source as they may be written, with characters of one set between the
braces and of another between the quotes. -/
inductive WrittenList (inner outer : CharSet) (inside : List Char) (source : Option (List Char)) :
    List Char → Prop
  | intro {lead trail tail : List Char} (hlead : ∀ x ∈ lead, isBlank x = true)
      (hinside : ∀ x ∈ inside, inner.contains x = true) (htrail : ∀ x ∈ trail, isBlank x = true)
      (hsource : WrittenSource outer source tail) :
      WrittenList inner outer inside source
        ("export".toList ++ (lead ++ '\x7b' :: (inside ++ '\x7d' :: (trail ++ tail))))

end Statement

open Statement

section Written

variable {inner outer inner' outer' : CharSet} {inside inside' text text' tail tail' : List Char}
  {source source' : Option (List Char)}

theorem Statement.WrittenSource.imp (h : WrittenSource outer source tail)
    (hsource : ∀ t ∈ source, ∀ x ∈ t, outer'.contains x = true) :
    WrittenSource outer' source tail := by
  cases h with
  | absent => exact .absent
  | present hblank hq hr hne _ => exact .present hblank hq hr hne (hsource _ rfl)

theorem Statement.WrittenList.imp (h : WrittenList inner outer inside source text)
    (hinside : ∀ x ∈ inside, inner'.contains x = true)
    (hsource : ∀ t ∈ source, ∀ x ∈ t, outer'.contains x = true) :
    WrittenList inner' outer' inside source text := by
  cases h with
  | intro hlead _ htrail hwritten => exact .intro hlead hinside htrail (hwritten.imp hsource)

theorem Statement.WrittenSource.contains (h : WrittenSource outer source tail) :
    ∀ t ∈ source, ∀ x ∈ t, outer.contains x = true := by
  cases h with
  | absent => simp
  | present _ _ _ _ hall => simpa using hall

theorem Statement.WrittenList.contains (h : WrittenList inner outer inside source text) :
    (∀ x ∈ inside, inner.contains x = true) ∧ ∀ t ∈ source, ∀ x ∈ t, outer.contains x = true := by
  cases h with
  | intro _ hinside _ hwritten => exact ⟨hinside, hwritten.contains⟩

theorem isBlank_of_quotes {x : Char} (h : quotes.contains x = true) : isBlank x = false :=
  eq_false_of_quotes h (by decide)

theorem unquoted_of_quotes {x : Char} (h : quotes.contains x = true) :
    unquoted.contains x = false :=
  eq_false_of_quotes h (by decide)

theorem sourced_of_quotes {x : Char} (h : quotes.contains x = true) : sourced.contains x = false :=
  eq_false_of_quotes h (by decide)

theorem unquoted_of_sourced {x : Char} (h : sourced.contains x = true) :
    unquoted.contains x = true := by
  have hnot : unquoted.contains x = !quotes.contains x := by
    simp [unquoted, quotes, CharSet.contains]
  rw [hnot]
  cases hquote : quotes.contains x with
  | false => rfl
  | true =>
      rw [sourced_of_quotes hquote] at h
      cases h

/-- What is stripped is read as well. -/
theorem Statement.WrittenList.widen (h : WrittenList listed sourced inside source text) :
    WrittenList (.allBut '\x7d') unquoted inside source text := by
  obtain ⟨hinside, hsource⟩ := h.contains
  refine h.imp (fun x hx => ?_) fun t ht x hx => unquoted_of_sourced (hsource t ht x hx)
  rw [CharSet.contains_allBut, bne_iff_ne]
  rintro rfl
  have hlisted := hinside _ hx
  rw [contains_listed_brace] at hlisted
  cases hlisted

/-- Neither a source nor a semicolon after it starts with a blank. -/
theorem Statement.WrittenSource.head (h : WrittenSource outer source tail) :
    (∀ x ∈ tail.head?, isBlank x = false) ∧ ∀ x ∈ (tail ++ [';']).head?, isBlank x = false := by
  cases h with
  | absent => simp [isBlank]
  | present => simp [isBlank]

/-- There is one way only to read a source. -/
theorem Statement.WrittenSource.unique (h : WrittenSource unquoted source tail)
    (h' : WrittenSource unquoted source' tail') {stop : List Char}
    (hstop : stop = [] ∨ stop = [';']) (htail : tail = tail' ++ stop) : source = source' := by
  cases h with
  | absent =>
      cases h' with
      | absent => rfl
      | present => simp at htail
  | present hblank hq hr hne hall =>
      cases h' with
      | absent => rcases hstop with rfl | rfl <;> simp at htail
      | present hblank' hq' hr' hne' hall' =>
          rw [List.append_assoc, List.append_assoc, List.cons_append, List.append_assoc] at htail
          obtain ⟨-, -, hrest⟩ :=
            eq_of_append_of_ends hblank hblank' (isBlank_of_quotes hq) (isBlank_of_quotes hq')
            (List.append_cancel_left htail)
          obtain ⟨rfl, -, -⟩ :=
            eq_of_append_of_ends hall hall' (unquoted_of_quotes hr) (unquoted_of_quotes hr') hrest
          rfl

/-- There is one way only to read a list, be it followed by a semicolon or not. -/
theorem Statement.WrittenList.unique (h : WrittenList (.allBut '\x7d') unquoted inside source text)
    (h' : WrittenList (.allBut '\x7d') unquoted inside' source' text') {stop : List Char}
    (hstop : stop = [] ∨ stop = [';']) (htext : text = text' ++ stop) :
    inside = inside' ∧ source = source' := by
  cases h with
  | @intro lead trail tail hlead hinside htrail hsource =>
      cases h' with
      | @intro lead' trail' tail' hlead' hinside' htrail' hsource' =>
          have hbraces : isBlank '\x7b' = false := by decide
          have hlist : lead ++ '\x7b' :: (inside ++ '\x7d' :: (trail ++ tail)) =
              lead' ++ '\x7b' :: (inside' ++ '\x7d' :: (trail' ++ (tail' ++ stop))) := by
            rw [List.append_assoc] at htext
            simpa using List.append_cancel_left htext
          obtain ⟨-, -, hrest⟩ := eq_of_append_of_ends hlead hlead' hbraces hbraces hlist
          obtain ⟨rfl, -, hrest⟩ := eq_of_append_of_ends hinside hinside' (by simp) (by simp) hrest
          have htrails : trail = trail' := by
            have hhead : ∀ x ∈ (tail' ++ stop).head?, isBlank x = false := by
              rcases hstop with rfl | rfl
              · simpa using hsource'.head.1
              · exact hsource'.head.2
            rw [← takeWhile_append_of_head htrail hsource.head.1, hrest,
              takeWhile_append_of_head htrail' hhead]
          subst htrails
          exact ⟨rfl, hsource.unique hsource' hstop (List.append_cancel_left hrest)⟩

end Written

section Reading

variable {c d : Cursor} {m : Match} {s : List Char}

/-- A source after a list is captured as group 3. -/
theorem passes_listSource (h : d ∈ listSource.ways c) :
    ∃ source tail quote, WrittenSource unquoted (some source) tail ∧ c.after = tail ++ d.after ∧
      d.groups = (3, source) :: (2, quote) :: c.groups := by
  obtain ⟨c₁, hfrom, h⟩ := mem_ways_seq.mp h
  obtain ⟨c₂, hblanks, h⟩ := mem_ways_seq.mp h
  obtain ⟨c₃, hopen, h⟩ := mem_ways_seq.mp h
  obtain ⟨c₄, hsource, hclose⟩ := mem_ways_seq.mp h
  obtain ⟨hafter, hgroups⟩ := passes_word hfrom
  obtain ⟨blank, hblank, hafter₁, hgroups₁⟩ := passes_blanks hblanks
  obtain ⟨q, hq, hafter₂, hgroups₂⟩ := passes_group_set hopen
  obtain ⟨source, hne, hall, hafter₃, hgroups₃⟩ := passes_group_oneOrMore hsource
  obtain ⟨t, ht, hafter₄, hgroups₄⟩ := passes_backref hclose
  have hgroups : c₄.groups = (3, source) :: (2, [q]) :: c.groups := by
    rw [hgroups₃, hgroups₂, hgroups₁, hgroups]
  rw [Cursor.group?, hgroups] at ht
  obtain rfl : [q] = t := Option.some.inj ht
  refine ⟨source, _, [q], .present hblank hq hq hne hall, ?_, by rw [hgroups₄, hgroups]⟩
  rw [hafter, hafter₁, hafter₂, hafter₃, hafter₄]
  simp

/-- A list that is matched as a whole is captured as group 1, and its source as group 3. -/
theorem writtenList_of_matchWhole (h : Statement.exportStatement.matchWhole s = some m)
    (hlist : m.group? 4 = none) :
    WrittenList (.allBut '\x7d') unquoted (m.group 1) (m.group? 3) s := by
  obtain ⟨h, hend⟩ := mem_ways_of_matchWhole h
  obtain ⟨c₁, hstart, h⟩ := mem_ways_seq.mp h
  obtain ⟨-, rfl⟩ := mem_ways_notBehind.mp hstart
  obtain ⟨c₂, hword, h⟩ := mem_ways_seq.mp h
  obtain ⟨hafter, hgroups⟩ := passes_word hword
  obtain ⟨c₃, hlead, h⟩ := mem_ways_seq.mp h
  obtain ⟨lead, hlead, hafter₂, hgroups₂⟩ := passes_blanks hlead
  rcases mem_ways_alt.mp h with h | h
  · obtain ⟨c₄, hbraces, h⟩ := mem_ways_seq.mp h
    obtain ⟨e, hopen, hbraces⟩ := mem_ways_seq.mp hbraces
    obtain ⟨hafter₃, hgroups₃⟩ := passes_char hopen
    obtain ⟨e', hinside, hclose⟩ := mem_ways_seq.mp hbraces
    obtain ⟨inside, hinside, hafter₄, hgroups₄⟩ := passes_group_many hinside
    obtain ⟨hafter₅, hgroups₅⟩ := passes_char hclose
    obtain ⟨c₅, htrail, h⟩ := mem_ways_seq.mp h
    obtain ⟨trail, htrail, hafter₆, hgroups₆⟩ := passes_blanks htrail
    have hgroups : c₅.groups = [(1, inside)] := by
      rw [hgroups₆, hgroups₅, hgroups₄, hgroups₃, hgroups₂, hgroups]
      rfl
    have htext :
        s = "export".toList ++ (lead ++ '\x7b' :: (inside ++ '\x7d' :: (trail ++ c₅.after))) := by
      rw [← hafter₆, ← hafter₅, ← hafter₄, ← hafter₃, ← hafter₂, ← hafter]
      rfl
    rw [htext]
    rcases mem_ways_optional.mp h with h | hlast
    · obtain ⟨source, tail, quote, hsource, hafter₇, hgroups₇⟩ := passes_listSource h
      rw [hgroups] at hgroups₇
      rw [hend, List.append_nil] at hafter₇
      have hone : m.group 1 = inside := Match.group_eq_lookup hgroups₇ 0
      have hthree : m.group? 3 = some source := Match.group?_eq_lookup hgroups₇ 2
      rw [hafter₇, hone, hthree]
      exact .intro hlead hinside htrail hsource
    · rw [hlast] at hgroups
      have hone : m.group 1 = inside := Match.group_eq_lookup hgroups 0
      have hthree : m.group? 3 = none := Match.group?_eq_lookup hgroups 2
      rw [hlast, hend, hone, hthree]
      exact .intro hlead hinside htrail .absent
  · obtain ⟨c₄, -, h⟩ := mem_ways_seq.mp h
    obtain ⟨c₅, -, h⟩ := mem_ways_seq.mp h
    obtain ⟨name, -, hgroups⟩ := groups_identifier h
    have hfour : m.group? 4 = some name := Match.group?_eq_lookup hgroups 3
    rw [hfour] at hlist
    cases hlist

theorem passes_plainSource (h : d ∈ plainSource.ways c) :
    ∃ source tail, WrittenSource sourced (some source) tail ∧ c.after = tail ++ d.after := by
  obtain ⟨c₁, hfrom, h⟩ := mem_ways_seq.mp h
  obtain ⟨c₂, hblanks, h⟩ := mem_ways_seq.mp h
  obtain ⟨c₃, hopen, h⟩ := mem_ways_seq.mp h
  obtain ⟨c₄, hsource, hclose⟩ := mem_ways_seq.mp h
  obtain ⟨hafter, -⟩ := passes_word hfrom
  obtain ⟨blank, hblank, hafter₁, -⟩ := passes_blanks hblanks
  obtain ⟨q, hq, hafter₂⟩ := passes_set hopen
  obtain ⟨source, hne, hall, hafter₃⟩ := passes_oneOrMore hsource
  obtain ⟨r, hr, hafter₄⟩ := passes_set hclose
  refine ⟨source, _, .present hblank hq hr hne hall, ?_⟩
  rw [hafter, hafter₁, hafter₂, hafter₃, hafter₄]
  simp

/-- Where a list is removed, it is written with plain characters and perhaps followed by a
semicolon. -/
theorem passes_exportList (h : d ∈ exportList.ways c) :
    ∃ inside source text stop, inside ≠ [] ∧ WrittenList listed sourced inside source text ∧
      (stop = [] ∨ stop = [';']) ∧ c.after = text ++ (stop ++ d.after) := by
  obtain ⟨c₁, hstart, h⟩ := mem_ways_seq.mp h
  obtain ⟨-, rfl⟩ := mem_ways_anchor.mp hstart
  obtain ⟨c₂, hword, h⟩ := mem_ways_seq.mp h
  obtain ⟨hafter, -⟩ := passes_word hword
  obtain ⟨c₃, hlead, h⟩ := mem_ways_seq.mp h
  obtain ⟨lead, hlead, hafter₂, -⟩ := passes_blanks hlead
  obtain ⟨c₄, hnames, h⟩ := mem_ways_seq.mp h
  obtain ⟨inside, hne, hinside, hlist, rfl⟩ := mem_ways_nameList.mp hnames
  have hafter₃ := (Cursor.leads_beyond hlist).after
  obtain ⟨c₅, htrail, h⟩ := mem_ways_seq.mp h
  obtain ⟨trail, htrail, hafter₄, -⟩ := passes_blanks htrail
  obtain ⟨c₆, hsource, hstop⟩ := mem_ways_seq.mp h
  obtain ⟨source, tail, hwritten, hafter₅⟩ : ∃ source tail, WrittenSource sourced source tail ∧
      c₅.after = tail ++ c₆.after := by
    rcases mem_ways_optional.mp hsource with h | rfl
    · obtain ⟨source, h⟩ := passes_plainSource h
      exact ⟨some source, h⟩
    · exact ⟨none, [], .absent, rfl⟩
  obtain ⟨stop, hstop, hafter₆⟩ : ∃ stop, (stop = [] ∨ stop = [';']) ∧
      c₆.after = stop ++ d.after := by
    rcases mem_ways_optional.mp hstop with h | rfl
    · exact ⟨[';'], .inr rfl, (passes_char h).1⟩
    · exact ⟨[], .inl rfl, rfl⟩
  refine ⟨inside, source, _, stop, hne, .intro hlead hinside htrail hwritten, hstop, ?_⟩
  rw [hafter, hafter₂, hafter₃, hafter₄, hafter₅, hafter₆]
  simp

theorem takes_plainSource {source tail : List Char} (h : WrittenSource sourced (some source) tail)
    (hc : c.after = tail) :
    ∃ d, plainSource.Takes c d ∧ d.after = [] := by
  cases h with
  | @present blank source q r hblank hq hr hne hall =>
      have hquote : ∀ x ∈ [r].head?, sourced.contains x = false := by
        simpa using sourced_of_quotes hr
      have hafter₁ := Cursor.after_beyond hc
      have hafter₂ := Cursor.after_beyond hafter₁
      have hafter₃ := Cursor.after_beyond (s := [q]) hafter₂
      have hafter₄ := Cursor.after_beyond hafter₃
      refine ⟨_, (takes_word hc).seq ((takes_many_set hafter₁ (by simpa using hblank) ?_).seq
        ((takes_set hafter₂ hq).seq
          ((takes_oneOrMore_set hafter₃ hne hall hquote).seq (takes_set hafter₄ hr)))), ?_⟩
      · simpa using isBlank_of_quotes hq
      · exact Cursor.after_beyond (s := [r]) hafter₄

/-- A list of plain characters is taken with its source. -/
theorem takes_exportList {inside : List Char} {source : Option (List Char)} (hc : c.Clear)
    (h : WrittenList listed sourced inside source c.after) (hne : inside ≠ []) :
    ∃ d, exportList.Takes c.fresh d ∧ d.after = [] := by
  generalize htext : c.after = text at h
  cases h with
  | @intro lead trail tail hlead hinside htrail hsource =>
      have hafter : c.fresh.after = _ := htext
      have hafter₁ := Cursor.after_beyond hafter
      have hafter₂ := Cursor.after_beyond hafter₁
      have hafter₃ := Cursor.after_beyond (s := ['\x7b']) hafter₂
      have hafter₄ := Cursor.after_beyond hafter₃
      have hafter₅ := Cursor.after_beyond (s := ['\x7d']) hafter₄
      have hafter₆ := Cursor.after_beyond hafter₅
      have hspace : blanks.Takes (c.fresh.beyond "export".toList)
          ((c.fresh.beyond "export".toList).beyond lead) :=
        takes_many_set hafter₁ (by simpa using hlead) (by simp [isBlank])
      have hnames : nameList.Takes _ _ := (takes_char hafter₂).seq
        ((takes_oneOrMore_set hafter₃ hne hinside (by simpa using contains_listed_brace)).seq
          (takes_char hafter₄))
      have hspace' : blanks.Takes _ _ :=
        takes_many_set hafter₅ (by simpa using htrail) (by simpa using hsource.head.1)
      obtain ⟨e, he, hend⟩ : ∃ e, (optional plainSource).Takes _ e ∧ e.after = [] := by
        cases hsource with
        | absent =>
            exact ⟨_, takes_optional_of_end (advances_seq_left (advances_word (by decide))) hafter₆,
              hafter₆⟩
        | present hblank hq hr hne hall =>
            obtain ⟨e, he, hend⟩ := takes_plainSource (.present hblank hq hr hne hall) hafter₆
            exact ⟨e, he.optional, hend⟩
      refine ⟨e, (takes_anchor (wordEdge_of_clear hc htext)).seq
        ((takes_word hafter).seq (hspace.seq (hnames.seq
        (hspace'.seq (he.seq (takes_optional_of_end (advances_set _) hend)))))), hend⟩

end Reading

section Removing

variable {inner outer : CharSet} {inside s : List Char} {source : Option (List Char)}

/-- No statement starts in the text but at its first character. -/
def StartsOnce (s : List Char) : Prop := ∀ b, b <:+ s.tail → ¬Starts b

/-- Where only the first character can start a statement, a pattern that does not match there has no
match. -/
theorem replace_eq_self_of_startsOnce {n : Node} {f : Match → List Char} (hn : Strips n f)
    (hs : StartsOnce s) (hfirst : n.matchAt false (.start s) = none) : n.replace none f s = s := by
  refine replace_eq_self hn.advances fun a b hab => ?_
  have hafter : ((Cursor.start s).beyond a).after = b := Cursor.after_beyond hab
  cases a with
  | nil => simpa using hfirst
  | cons x a =>
      apply hn.matchAt_eq_none_of_not_start
      rw [hafter]
      exact hs b ⟨a, by rw [hab, List.cons_append, List.tail_cons]⟩

/-- A rule for exported declarations does not match at a list. -/
theorem matchAt_exported_eq_none {k : Node} {f : Match → List Char} {words : List String}
    (hk : ReadsKeyword k f words) (h : WrittenList inner outer inside source s) :
    (exported k).matchAt false (.start s) = none := by
  rw [Option.eq_none_iff_forall_not_mem]
  intro m hm
  obtain ⟨c₁, hedge, hway⟩ := mem_ways_seq.mp (matchAt_sound hm).2
  obtain ⟨-, rfl⟩ := mem_ways_anchor.mp hedge
  obtain ⟨c₂, hexport, hway⟩ := mem_ways_seq.mp hway
  obtain ⟨c₃, hspace, hway⟩ := mem_ways_seq.mp hway
  obtain ⟨c₄, hkeyword, -⟩ := mem_ways_seq.mp hway
  obtain ⟨hafter, -⟩ := passes_word hexport
  obtain ⟨hafter₂, -⟩ := passes_char hspace
  obtain ⟨w, hw, hlead, -⟩ := hk.sound hkeyword
  obtain ⟨hne, hword⟩ := word_of_mem_keywords (hk.subset hw)
  -- right after the blank there is a blank or the brace, and no word starts
  have hhead : c₃.after.head?.any isWord = false := by
    cases h with
    | @intro lead trail tail hblank _ _ _ =>
        have hbrace : isWord '\x7b' = false := by decide
        have hrest := List.append_cancel_left hafter
        rw [hafter₂] at hrest
        cases lead with
        | nil => simp at hrest
        | cons y lead =>
            obtain ⟨-, hrest⟩ := List.cons.inj hrest
            rw [← hrest]
            cases lead with
            | nil => exact hbrace
            | cons z lead => exact isWord_of_isBlank (hblank z (by simp))
  exact hne (List.prefix_nil.mp (prefix_of_prefix_append hword hhead ⟨_, hlead.after.symm⟩))

theorem declarationsStripped_eq_self (h : WrittenList inner outer inside source s)
    (hs : StartsOnce s) :
    Rule.declarationsStripped s = s := by
  have hvar : "var" ∈ keywords := by decide
  have hfunction : "function" ∈ keywords := by decide
  have hexported : ∀ {k : Node} {f : Match → List Char} {words : List String},
      ReadsKeyword k f words →
      (exported k).replace none f s = s := fun hk =>
    replace_eq_self_of_startsOnce (strips_exported hk) hs (matchAt_exported_eq_none hk h)
  have himport : importLine.remove s = s := by
    refine replace_eq_self_of_startsOnce strips_importLine hs ?_
    rw [Option.eq_none_iff_forall_not_mem]
    intro m hm
    obtain ⟨c₁, hword, -⟩ := mem_ways_seq.mp (matchAt_sound hm).2
    have hafter := (passes_word hword).1
    cases h with
    | intro => cases hafter
  simp only [Rule.declarationsStripped, himport, hexported (readsKeyword_word hvar),
    hexported (readsKeyword_word hfunction), hexported readsKeyword_group]

/-- After the first match nothing more is removed. -/
theorem replacedAt_last_eq_after {m : Match} (hs : StartsOnce s)
    (hm : exportList.matchAt false (.start s) = some m) :
    exportList.replacedAt (fun _ => []) m.last = m.last.after := by
  have hn := strips_exportList
  obtain ⟨t, ht⟩ := exists_leads_of_matchAt hm
  have hshorter := length_after_lt_of_matchAt hn.advances hm
  have hsplit : s = t ++ m.last.after := ht.after
  have hend : m.last.after = m.last.after ++ [] := (List.append_nil _).symm
  have hafter := Cursor.after_beyond hend
  have hcopied := hn.replacedAt_append hend fun b hb _ hstart => by
    rw [List.append_nil] at hstart
    refine hs b (hb.trans ?_) hstart
    cases t with
    | nil =>
        rw [ht.after, List.nil_append] at hshorter
        exact absurd hshorter (Nat.lt_irrefl _)
    | cons x t =>
        rw [hsplit, List.cons_append, List.tail_cons]
        exact List.suffix_append t _
  rw [hcopied, replacedAt_finished (hn.matchAt_eq_none (by rw [hafter]; rfl)) hafter,
    List.append_nil]

/-- A list goes away as a whole exactly if it is not empty and it and its source consist of plain
characters. -/
theorem remove_exportList_eq_nil_iff (h : WrittenList (.allBut '\x7d') unquoted inside source s)
    (hs : StartsOnce s) :
    exportList.remove s = [] ↔ inside ≠ [] ∧ (∀ x ∈ inside, listed.contains x = true) ∧
      ∀ t ∈ source, ∀ x ∈ t, sourced.contains x = true := by
  have hn := strips_exportList
  rw [remove, replace_eq_replacedAt hn.advances]
  constructor
  · intro hnil
    cases hm : exportList.matchAt false (.start s) with
    | none =>
        have hhead := Node.head?_replacedAt (f := fun _ => []) hn.advances hm
        rw [hnil] at hhead
        cases h with
        | intro => cases hhead
    | some m =>
        rw [replacedAt_found hn.advances hm, List.nil_append, replacedAt_last_eq_after hs hm]
          at hnil
        obtain ⟨inside', source', text, stop, hne, hwritten, hstop, htext⟩ :=
          passes_exportList (matchAt_sound hm).2
        have hsplit : s = text ++ stop := by
          rw [hnil, List.append_nil] at htext
          exact htext
        obtain ⟨rfl, rfl⟩ := h.unique hwritten.widen hstop hsplit
        exact ⟨hne, hwritten.contains⟩
  · rintro ⟨hne, hinside, hsource⟩
    obtain ⟨d, hd, hend⟩ :=
      @takes_exportList (.start s) inside source rfl (h.imp hinside hsource) hne
    rw [replacedAt_found hn.advances hd.matchAt, List.nil_append]
    exact replacedAt_finished (hn.matchAt_eq_none (by rw [hend]; rfl)) hend

end Removing

/-- What the rules for module statements leave of a text is not read as a statement, if after the
word `export` there is only what the rules can strip. A text that is read as one list, and in which
no other statement starts, is stripped as a whole exactly if it is not empty and has none but plain
characters between its braces and in its source. -/
theorem moduleStatements_strip (baseName : String) (text : List Char) :
    (ExportsFollowedBy (Strippable keywords) text →
      ∃ rest, Rule.applyAll Rule.moduleStatements text = .ok rest ∧
        Export.fromStatements baseName rest = pure []) ∧
    ∀ m, Statement.exportStatement.matchWhole text = some m → m.group? 4 = none → StartsOnce text →
      (Rule.applyAll Rule.moduleStatements text = .ok [] ↔
        m.group 1 ≠ [] ∧ (∀ x ∈ m.group 1, listed.contains x = true) ∧
          ∀ source ∈ m.group? 3, ∀ x ∈ source, sourced.contains x = true) := by
  constructor
  · intro h
    exact ⟨_, Rule.applyAll_moduleStatements text,
      fromStatements_eq_nil baseName h.declarationsStripped.exportList⟩
  · intro m hm hlist hs
    have hwritten := writtenList_of_matchWhole hm hlist
    rw [Rule.applyAll_moduleStatements, declarationsStripped_eq_self hwritten hs, Except.ok.injEq]
    exact remove_exportList_eq_nil_iff hwritten hs

theorem inert_cons {x : Char} {rest : List Char} (hx : isBlank x = false ∧ x ≠ '\x7b')
    (hfree : ∀ w ∈ keywords.map (·.toList) ++ heads, ¬w <+: x :: rest) : Inert (x :: rest) :=
  ⟨[], x :: rest, rfl, by simp, by simpa using hx, hfree⟩

/-- The word `export` need only be looked up where it stands. -/
theorem exportsFollowedBy_of_positions {P : List Char → Prop} {text : List Char}
    (positions : List Nat)
    (hall : ∀ n ≤ text.length, "export".toList <+: text.drop n → n ∈ positions)
    (hP : ∀ n ∈ positions, P (text.drop (n + 6))) : ExportsFollowedBy P text := by
  intro before rest hsplit
  have hdrop : text.drop before.length = "export".toList ++ rest := by rw [hsplit, List.drop_left]
  have hrest : text.drop (before.length + 6) = rest := by
    rw [← List.drop_drop, hdrop]
    rfl
  have hlength : before.length ≤ text.length := by
    rw [hsplit, List.length_append]
    exact Nat.le_add_right _ _
  have hfollows := hP _ (hall _ hlength ⟨rest, hdrop.symm⟩)
  rw [hrest] at hfollows
  exact .inr hfollows

/-- A script with an import, an exported declaration, a list with its source and two words that only
start with `export`. -/
def strippedScript : List Char :=
  "import a from 'x'\nexport var b = a;\n".toList ++
    "export \x7b exportAll, b \x7d from './d';\nexports.c = b;".toList

theorem moduleStatements_strip_script :
    (∃ rest, Rule.applyAll Rule.moduleStatements strippedScript = .ok rest ∧
      Export.fromStatements "m" rest = pure []) ∧
    Rule.applyAll Rule.moduleStatements "export \x7b exportAll, b \x7d from './d'".toList =
      .ok [] := by
  constructor
  · refine (moduleStatements_strip "m" strippedScript).1
      (exportsFollowedBy_of_positions [18, 36, 45, 72] ?_ ?_)
    · decide +kernel
    · have hdeclaration :
          strippedScript.drop 24 = ' ' :: ("var".toList ++ strippedScript.drop 28) := by decide
      have hlist : strippedScript.drop 42 =
          [' '] ++ '\x7b' :: (" exportAll, b ".toList ++ '\x7d' :: strippedScript.drop 59) := by
            decide
      have hname : strippedScript.drop 51 = 'A' :: strippedScript.drop 52 := by decide
      have hobject : strippedScript.drop 78 = 's' :: strippedScript.drop 79 := by decide
      have hnone : ∀ b ∈ " exportAll, b ".toList.tails, ¬Starts b := by decide
      simp only [List.forall_mem_cons, List.not_mem_nil, false_implies, implies_true, and_true,
        Nat.reduceAdd]
      refine ⟨?_, ?_, ?_, ?_⟩
      · rw [hdeclaration]
        exact .declaration (by decide) (by decide)
      · rw [hlist]
        exact .list (by simp [isBlank]) (by decide) (List.all_eq_true.mp (by decide))
          fun b hb => hnone b ((List.mem_tails b _).mpr hb)
      · rw [hname]
        exact .other (inert_cons (by decide) (by decide))
      · rw [hobject]
        exact .other (inert_cons (by decide) (by decide))
  · have hread :
        (Statement.exportStatement.matchWhole
          "export \x7b exportAll, b \x7d from './d'".toList).any (fun m =>
            m.group? 4 == none && m.group 1 == " exportAll, b ".toList &&
              m.group? 3 == some "./d".toList) = true := by
      decide +kernel
    obtain ⟨m, hm, hgroups⟩ := (Option.any_eq_true _ _).mp hread
    simp only [Bool.and_eq_true, beq_iff_eq] at hgroups
    obtain ⟨⟨hfour, hone⟩, hthree⟩ := hgroups
    have hnone : ∀ b ∈ "xport \x7b exportAll, b \x7d from './d'".toList.tails, ¬Starts b := by
      decide +kernel
    refine ((moduleStatements_strip "m" _).2 m hm hfour fun b hb => hnone b
      ((List.mem_tails b _).mpr hb)).mpr ?_
    rw [hone, hthree]
    refine ⟨by decide, List.all_eq_true.mp (by decide), ?_⟩
    intro source hsource
    obtain rfl := Option.some.inj hsource
    exact List.all_eq_true.mp (by decide)

/-- A second blank before the keyword, a list that stands between another `export` and its list, and
a source with a mark that the rules do not know each leave something behind. -/
theorem statements_left_by_rules :
    (∃ rest, Rule.applyAll Rule.moduleStatements "export  var x".toList = .ok rest ∧
      (Export.fromStatements "m" rest).value = [.plain "x"]) ∧
    (∃ rest, Rule.applyAll Rule.moduleStatements "export export \x7ba\x7d \x7bb\x7d".toList =
      .ok rest ∧
      (Export.fromStatements "m" rest).value = [.plain "b"]) ∧
    ∃ m, Statement.exportStatement.matchWhole "export \x7b map \x7d from '@lib/map'".toList =
      some m ∧
      m.group? 4 = none ∧
        Rule.applyAll Rule.moduleStatements "export \x7b map \x7d from '@lib/map'".toList =
        .ok "from '@lib/map'".toList := by
  refine ⟨⟨"export  var x".toList, by decide +kernel⟩,
    ⟨"export \x7bb\x7d".toList, by decide +kernel⟩, ?_⟩
  have hread :
      (Statement.exportStatement.matchWhole "export \x7b map \x7d from '@lib/map'".toList).any
      (fun m => m.group? 4 == none) = true := by
    decide +kernel
  obtain ⟨m, hm, hfour⟩ := (Option.any_eq_true _ _).mp hread
  exact ⟨m, hm, beq_iff_eq.mp hfour, by decide +kernel⟩

end ScriptModules
