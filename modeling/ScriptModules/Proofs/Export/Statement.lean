import ScriptModules.Proofs.Export.Writable

/-!
# Taking export statements

An export statement as it is written is taken whole where it stands: the names between its braces
become one capture, a source another, and nothing of what follows is taken but blanks. An item of a
list is taken as a renaming, as a name alone or not at all.
-/

namespace ScriptModules

open Pattern Pattern.Node Text

/-- The characters after which no statement starts. -/
abbrev Statement.glued : CharSet := .identOr ['.']

/-- The source of a list of exports, with its quote as group 2 and its text as group 3. -/
def Statement.listSource : Node := sequence [
  word "from", blanks, .group 2 (.set quotes), .group 3 (oneOrMore (.set unquoted)),
    .backref 2 .exact]

/-- A statement may start here. -/
def Pattern.Cursor.Clear (c : Cursor) : Prop := c.before.head?.any Statement.glued.contains = false

section Taking

variable {c : Cursor} {inside source blank tail rest : List Char}

theorem glued_of_isBlank {x : Char} (h : isBlank x = true) :
    Statement.glued.contains x = false := by
  have hdot : x ≠ '.' := by
    rintro rfl
    simp [isBlank] at h
  simp [CharSet.contains_identOr, isIdent_of_isBlank h, hdot]

theorem clear_beyond_blanks (hc : c.Clear) (hblank : ∀ x ∈ blank, isBlank x = true) :
    (c.beyond blank).Clear := by
  rw [Cursor.Clear, Cursor.before_beyond, List.head?_append]
  cases h : blank.reverse.head? with
  | none => exact hc
  | some x =>
      simpa using glued_of_isBlank (hblank x (List.mem_reverse.mp (List.mem_of_mem_head? h)))

/-- A word is taken where it stands. -/
theorem exists_takes_word {w : String} (h : c.after = w.toList ++ rest) :
    ∃ d, (word w).Takes c d ∧ d.after = rest ∧ d.groups = c.groups :=
  ⟨_, takes_word h, Cursor.after_beyond h, rfl⟩

theorem exists_takes_blanks (h : c.after = ' ' :: rest)
    (hrest : ∀ x ∈ rest.head?, isBlank x = false) :
    ∃ d, blanks.Takes c d ∧ d.after = rest ∧ d.groups = c.groups :=
  ⟨_, takes_many_set (t := [' ']) h (by simp [isBlank]) (by simpa using hrest),
    Cursor.after_beyond h, rfl⟩

theorem exists_takes_gap (h : c.after = ' ' :: rest) (hrest : ∀ x ∈ rest.head?, isBlank x = false) :
    ∃ d, gap.Takes c d ∧ d.after = rest ∧ d.groups = c.groups :=
  ⟨_, takes_oneOrMore_set (t := [' ']) h (by simp) (by simp [isBlank]) (by simpa using hrest),
    Cursor.after_beyond h, rfl⟩

/-- A group captures the text that is taken in it. -/
theorem exists_takes_group {n : Node} {t : List Char} (i : Nat) (hn : n.Takes c (c.beyond t))
    (h : c.after = t ++ rest) :
    ∃ d, (Node.group i n).Takes c d ∧ d.after = rest ∧ d.groups = (i, t) :: c.groups :=
  ⟨_, hn.group (Cursor.leads_beyond ⟨_, h.symm⟩) i, Cursor.after_beyond h, rfl⟩

theorem takes_braceList (h : c.after = '\x7b' :: (inside ++ '\x7d' :: tail))
    (hinside : '\x7d' ∉ inside) :
    ∃ d, Statement.braceList.Takes c d ∧ d.after = tail ∧ d.groups = (1, inside) :: c.groups ∧
      d.Clear := by
  have hopen : (c.beyond ['\x7b']).after = inside ++ '\x7d' :: tail := Cursor.after_beyond h
  have hrun : (many (.set (.allBut '\x7d'))).Takes (c.beyond ['\x7b'])
      ((c.beyond ['\x7b']).beyond inside) := by
    refine takes_many_set hopen (fun x hx => ?_) (by simp)
    rw [CharSet.contains_allBut, bne_iff_ne]
    rintro rfl
    exact hinside hx
  obtain ⟨e, hcaptured, hclose, hgroups⟩ := exists_takes_group 1 hrun hopen
  refine ⟨e.beyond ['\x7d'], ?_, Cursor.after_beyond hclose, hgroups, ?_⟩
  · exact (takes_char h).seq (hcaptured.seq (takes_char hclose))
  · have hbrace : Statement.glued.contains '\x7d' = false := by decide
    simpa [Cursor.Clear] using hbrace

/-- Up to the closing brace a statement is taken whatever follows. -/
theorem takes_opening (hc : c.Clear)
    (h : c.after = "export".toList ++ (' ' :: '\x7b' :: (inside ++ '\x7d' :: tail)))
    (hinside : '\x7d' ∉ inside) :
    ∃ e : Cursor, e.after = tail ∧ e.groups = (1, inside) :: c.groups ∧ e.Clear ∧
      ∀ d, (blanks.seq (optional Statement.listSource)).Takes e d →
        Statement.exportStatement.Takes c d := by
  obtain ⟨c₁, hword, hafter₁, hgroups₁⟩ := exists_takes_word h
  obtain ⟨c₂, hspace, hafter₂, hgroups₂⟩ := exists_takes_blanks hafter₁ (by simp [isBlank])
  obtain ⟨e, hbraces, hafter, hgroups, hclear⟩ := takes_braceList hafter₂ hinside
  refine ⟨e, hafter, by rw [hgroups, hgroups₂, hgroups₁], hclear, fun d hd => ?_⟩
  exact (takes_notBehind hc).seq (hword.seq (hspace.seq (Takes.alt_left (hbraces.seq hd))))

/-- A list is taken with the blanks after it where no source follows. -/
theorem takes_list (hc : c.Clear)
    (h : c.after = "export".toList ++ (' ' :: '\x7b' :: (inside ++ '\x7d' :: (blank ++ rest))))
    (hinside : '\x7d' ∉ inside) (hblank : ∀ x ∈ blank, isBlank x = true)
    (hrest : ∀ x ∈ rest.head?, isBlank x = false ∧ x ≠ 'f') :
    ∃ d, Statement.exportStatement.Takes c d ∧ d.after = rest ∧ d.groups = (1, inside) :: c.groups ∧
      d.Clear := by
  obtain ⟨e, hafter, hgroups, hclear, htakes⟩ := takes_opening hc h hinside
  have hover : (e.beyond blank).after = rest := Cursor.after_beyond hafter
  have hblanks : blanks.Takes e (e.beyond blank) := by
    refine takes_many_set hafter (by simpa using hblank) ?_
    simpa using fun x hx => (hrest x hx).1
  have hnone : (word "from").ways (e.beyond blank) = [] := by
    rw [word, ways_literal, hover, if_neg]
    cases rest with
    | nil => decide
    | cons x rest => simpa [List.isPrefixOf] using fun hx => absurd hx.symm (hrest x rfl).2
  have hsource : (optional Statement.listSource).Takes (e.beyond blank) (e.beyond blank) := by
    apply takes_optional_of_nil
    simp [Statement.listSource, Node.sequence, ways, hnone]
  exact ⟨e.beyond blank, htakes _ (hblanks.seq hsource), hover, hgroups,
    clear_beyond_blanks hclear hblank⟩

theorem takes_listSource (h : c.after = "from".toList ++ (' ' :: '"' :: (source ++ '"' :: rest)))
    (hsource : IsSource source) :
    ∃ d, Statement.listSource.Takes c d ∧ d.after = rest ∧
      d.groups = (3, source) :: (2, ['"']) :: c.groups ∧ d.Clear := by
  obtain ⟨hne, hall⟩ := hsource
  obtain ⟨c₁, hword, hafter₁, hgroups₁⟩ := exists_takes_word h
  obtain ⟨c₂, hspace, hafter₂, hgroups₂⟩ := exists_takes_blanks hafter₁ (by simp [isBlank])
  obtain ⟨c₃, hquote, hafter₃, hgroups₃⟩ := exists_takes_group 2
    (takes_set (s := Statement.quotes) hafter₂ (by decide)) hafter₂
  obtain ⟨c₄, hrun, hafter₄, hgroups₄⟩ := exists_takes_group 3
    (takes_oneOrMore_set hafter₃ hne hall (by simpa using (by decide))) hafter₃
  have hgroups : c₄.groups = (3, source) :: (2, ['"']) :: c.groups := by
    rw [hgroups₄, hgroups₃, hgroups₂, hgroups₁]
  have hback : c₄.group? 2 = some ['"'] := by
    rw [Cursor.group?, hgroups]
    rfl
  refine ⟨c₄.beyond ['"'], ?_, Cursor.after_beyond hafter₄, hgroups, ?_⟩
  · exact hword.seq (hspace.seq (hquote.seq (hrun.seq (takes_backref hback hafter₄))))
  · have hglued : Statement.glued.contains '"' = false := by decide
    simpa [Cursor.Clear] using hglued

/-- A list is taken with its source, and nothing after it. -/
theorem takes_passed (hc : c.Clear)
    (h : c.after = "export".toList ++ (' ' :: '\x7b' :: (inside ++ '\x7d' ::
      (' ' :: ("from".toList ++ (' ' :: '"' :: (source ++ '"' :: rest)))))))
    (hinside : '\x7d' ∉ inside) (hsource : IsSource source) :
    ∃ d, Statement.exportStatement.Takes c d ∧ d.after = rest ∧
      d.groups = (3, source) :: (2, ['"']) :: (1, inside) :: c.groups ∧ d.Clear := by
  obtain ⟨e, hafter, hgroups, -, htakes⟩ := takes_opening hc h hinside
  obtain ⟨e₁, hspace, hafter₁, hgroups₁⟩ := exists_takes_blanks hafter (by simp [isBlank])
  obtain ⟨d, hd, hrest, hcaptured, hclear⟩ := takes_listSource hafter₁ hsource
  refine ⟨d, htakes d (hspace.seq hd.optional), hrest, ?_, hclear⟩
  rw [hcaptured, hgroups₁, hgroups]

theorem takes_identifier {name : List Char} (h : c.after = name ++ rest) (hname : IsIdentifier name)
    (hrest : ∀ x ∈ rest.head?, isIdent x = false) : identifier.Takes c (c.beyond name) :=
  takes_oneOrMore_set h hname.1 (by simpa using hname.2) (by simpa using hrest)

end Taking

section Items

variable {name new : List Char}

/-- A renaming is read as one. -/
theorem matchStart_renamedItem (hname : IsIdentifier name) (hnew : IsIdentifier new) :
    ∃ m, Statement.renamedItem.matchStart (name ++ (' ' :: ("as".toList ++ (' ' :: new)))) =
      some m ∧
      m.last.groups = [(2, new), (1, name)] := by
  generalize htext : name ++ (' ' :: ("as".toList ++ (' ' :: new))) = text
  have hstart : (Cursor.start text).fresh.after = name ++ (' ' :: ("as".toList ++ (' ' :: new))) :=
    htext.symm
  obtain ⟨c₁, hfirst, hafter₁, hgroups₁⟩ := exists_takes_group 1
    (takes_identifier hstart hname (by simp; decide)) hstart
  obtain ⟨c₂, hgap, hafter₂, hgroups₂⟩ := exists_takes_gap hafter₁ (by simp [isBlank])
  obtain ⟨c₃, hword, hafter₃, hgroups₃⟩ := exists_takes_word hafter₂
  obtain ⟨c₄, hgap', hafter₄, hgroups₄⟩ := exists_takes_gap hafter₃ fun x hx =>
    hnew.isSolid.2 x (List.mem_of_mem_head? hx)
  rw [← List.append_nil new] at hafter₄
  obtain ⟨c₅, hsecond, hafter₅, hgroups₅⟩ := exists_takes_group 2
    (takes_identifier hafter₄ hnew (by simp)) hafter₄
  have hfinish : c₅.holds .finish = true := by
    rw [Cursor.holds, hafter₅]
    rfl
  have htakes : Statement.renamedItem.Takes (Cursor.start text).fresh c₅ :=
    (takes_anchor rfl).seq
      (hfirst.seq (hgap.seq (hword.seq (hgap'.seq (hsecond.seq (takes_anchor hfinish))))))
  refine ⟨_, htakes.matchAt, ?_⟩
  rw [hgroups₅, hgroups₄, hgroups₃, hgroups₂, hgroups₁]
  rfl

/-- An identifier alone is not a renaming, as no blank follows it. -/
theorem matchStart_renamedItem_of_isIdentifier (hname : IsIdentifier name) :
    Statement.renamedItem.matchStart name = none := by
  rw [matchStart, matchAt_eq_none_iff, List.eq_nil_iff_forall_not_mem]
  intro d hd
  obtain ⟨c, hc, hd⟩ := mem_ways_seq.mp hd
  obtain ⟨-, rfl⟩ := mem_ways_anchor.mp hc
  obtain ⟨e, he, hd⟩ := mem_ways_seq.mp hd
  obtain ⟨t, -, ⟨r, hr⟩, -, rfl⟩ := mem_ways_group_oneOrMore_set.mp he
  obtain ⟨e, he, hd⟩ := mem_ways_seq.mp hd
  obtain ⟨blank, hne, hblank, hall, -⟩ := mem_ways_oneOrMore_set.mp he
  have hafter : (((Cursor.start name).fresh.beyond t).record 1 t).after = r :=
    Cursor.after_beyond hr.symm
  obtain ⟨x, blank, rfl⟩ := List.exists_cons_of_ne_nil hne
  have htext : name = t ++ r := hr.symm
  have hx : x ∈ name := by
    rw [htext]
    exact List.mem_append_right _ (hafter ▸ hblank.subset (by simp))
  have hxblank : isBlank x = true := by simpa using hall x (by simp)
  simp [hname.isSolid.2 x hx] at hxblank

theorem isSome_loneIdentifier (hname : IsIdentifier name) :
    (Statement.loneIdentifier.matchStart name).isSome = true := by
  have hstart : (Cursor.start name).fresh.after = name ++ [] := (List.append_nil name).symm
  have hafter : ((Cursor.start name).fresh.beyond name).after = [] := Cursor.after_beyond hstart
  have hfinish : ((Cursor.start name).fresh.beyond name).holds .finish = true := by
    rw [Cursor.holds, hafter]
    rfl
  have htakes : Statement.loneIdentifier.Takes (Cursor.start name).fresh
      ((Cursor.start name).fresh.beyond name) :=
    (takes_anchor rfl).seq ((takes_identifier hstart hname (by simp)).seq (takes_anchor hfinish))
  rw [matchStart, htakes.matchAt]
  rfl

namespace Export

variable {baseName : String} {item : List Char}

theorem value_ofListItem_source {t source : List Char} (hitem : squeeze item = t) (hne : t ≠ []) :
    (ofListItem baseName (some source) item).value =
      [.entry (String.ofList t) .fromFile (String.ofList source)] := by
  simp [ofListItem, hitem, hne]

theorem value_ofListItem_renamed (hname : IsIdentifier name) (hnew : IsIdentifier new)
    (hitem : squeeze item = name ++ (' ' :: ("as".toList ++ (' ' :: new)))) :
    (ofListItem baseName none item).value =
      [.entry (String.ofList name) .asName (String.ofList new)] := by
  obtain ⟨m, hm, hgroups⟩ := matchStart_renamedItem hname hnew
  have hfirst : m.group 1 = name := Match.group_eq_lookup hgroups 0
  have hsecond : m.group 2 = new := Match.group_eq_lookup hgroups 1
  simp only [ofListItem, hitem, hm, hfirst, hsecond]
  rw [if_neg (by simp)]
  rfl

theorem value_ofListItem_plain (hname : IsIdentifier name) (hitem : squeeze item = name) :
    (ofListItem baseName none item).value = [.plain (String.ofList name)] := by
  simp only [ofListItem, hitem, matchStart_renamedItem_of_isIdentifier hname,
    isSome_loneIdentifier hname]
  rw [if_neg (by simpa using hname.1)]
  rfl

end Export

end Items

end ScriptModules
