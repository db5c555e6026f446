import ScriptModules.Proofs.Export.Statement
import ScriptModules.Proofs.Pattern.Loops

/-!
# Taking import clauses

The parts of an import clause are lists in braces and runs of names, each before blanks, and a text
can be cut into them in one way only. The word before the source is such a run itself. A clause is
therefore first taken with that word, which it gives back as no such word follows.
-/

namespace ScriptModules

open Pattern Pattern.Node Text

namespace Statement

/-- The characters of a run of names. -/
abbrev run : CharSet := .identOr [',', '*', '-']

/-- A part of a clause: a list of names in braces or a run of names, before blanks. -/
def clausePart : Node := sequence [choice [nameList, oneOrMore (.set run)], gap]

theorem clause_eq : clause = oneOrMore clausePart := rfl

theorem contains_listed (x : Char) : listed.contains x = (isIdent x || isBlank x || x == ',') := by
  simp [CharSet.contains, listed, SetItem.holds, CharKind.holds, CaseRule.agree, isIdent,
    Bool.or_assoc]

theorem contains_run_of_isBlank {x : Char} (h : isBlank x = true) : run.contains x = false := by
  have hmarks : [',', '*', '-'].contains x = false := by
    simp only [List.contains_eq_mem, decide_eq_false_iff_not]
    intro hx
    rw [List.mem_cons, List.mem_pair] at hx
    rcases hx with rfl | rfl | rfl <;> simp [isBlank] at h
  rw [CharSet.contains_identOr, isIdent_of_isBlank h, hmarks]
  rfl

/-- The text of a part of a clause, without the blanks after it. -/
inductive IsPart : List Char → Prop
  | list {inside : List Char} (hne : inside ≠ []) (h : ∀ x ∈ inside, listed.contains x = true) :
      IsPart ('\x7b' :: (inside ++ ['\x7d']))
  | names {t : List Char} (hne : t ≠ []) (h : ∀ x ∈ t, run.contains x = true) : IsPart t

/-- A run ends at the first character that is not in it, and so has one end only. -/
theorem eq_of_append_of_ends {p : Char → Bool} {s t a b : List Char} {x y : Char}
    (hs : ∀ z ∈ s, p z = true) (ht : ∀ z ∈ t, p z = true) (hx : p x = false) (hy : p y = false)
    (h : s ++ x :: a = t ++ y :: b) :
    s = t ∧ x = y ∧ a = b := by
  have hst : s = t := by
    rw [← takeWhile_append_of_head (r := x :: a) hs (by simpa using hx), h,
      takeWhile_append_of_head ht (by simpa using hy)]
  subst hst
  exact ⟨rfl, List.cons.inj (List.append_cancel_left h)⟩

theorem contains_listed_brace : listed.contains '\x7d' = false := by decide

theorem not_isPart_names {t : List Char} (h : ∀ x ∈ t, run.contains x = true) (r : List Char) :
    '\x7b' :: r ≠ t := by
  rintro rfl
  exact absurd (h '\x7b' (by simp)) (by decide)

/-- Before blanks, a part has one end only. -/
theorem IsPart.eq_of_append {s t a b : List Char} {x y : Char} (hs : IsPart s) (ht : IsPart t)
    (hx : isBlank x = true) (hy : isBlank y = true) (h : s ++ x :: a = t ++ y :: b) :
    s = t ∧ a = b := by
  cases hs with
  | @list inside hne hlisted =>
      cases ht with
      | @list inside' hne' hlisted' =>
          have hends : inside ++ '\x7d' :: x :: a = inside' ++ '\x7d' :: y :: b := by simpa using h
          obtain ⟨rfl, -, hrest⟩ := eq_of_append_of_ends hlisted hlisted' contains_listed_brace
            contains_listed_brace hends
          exact ⟨rfl, (List.cons.inj hrest).2⟩
      | names hne' hrun =>
          obtain ⟨z, t, rfl⟩ := List.exists_cons_of_ne_nil hne'
          obtain rfl : '\x7b' = z := (List.cons.inj h).1
          exact absurd rfl (not_isPart_names hrun _)
  | names hne hrun =>
      cases ht with
      | @list inside' hne' hlisted' =>
          obtain ⟨z, s, rfl⟩ := List.exists_cons_of_ne_nil hne
          obtain rfl : z = '\x7b' := (List.cons.inj h).1
          exact absurd rfl (not_isPart_names hrun _)
      | names hne' hrun' =>
          obtain ⟨rfl, -, hrest⟩ := eq_of_append_of_ends hrun hrun' (contains_run_of_isBlank hx)
            (contains_run_of_isBlank hy) h
          exact ⟨rfl, hrest⟩

end Statement

open Statement

variable {c d : Cursor} {inside item blank rest : List Char}

theorem mem_ways_nameList :
    d ∈ nameList.ways c ↔ ∃ inside, inside ≠ [] ∧ (∀ x ∈ inside, listed.contains x = true) ∧
      '\x7b' :: (inside ++ ['\x7d']) <+: c.after ∧
        d = c.beyond ('\x7b' :: (inside ++ ['\x7d'])) := by
  constructor
  · intro h
    obtain ⟨e, he, h⟩ := mem_ways_seq.mp h
    obtain ⟨⟨a, ha⟩, rfl⟩ := mem_ways_char.mp he
    obtain ⟨f, hf, h⟩ := mem_ways_seq.mp h
    obtain ⟨inside, hne, ⟨b, hb⟩, hall, rfl⟩ := mem_ways_oneOrMore_set.mp hf
    obtain ⟨⟨r, hr⟩, rfl⟩ := mem_ways_char.mp h
    rw [Cursor.after_beyond ha.symm] at hb
    rw [Cursor.after_beyond (hb ▸ Cursor.after_beyond ha.symm)] at hr
    exact ⟨inside, hne, hall, ⟨r, by rw [← ha, ← hb, ← hr]; simp⟩, by simp⟩
  · rintro ⟨inside, hne, hall, ⟨r, hr⟩, rfl⟩
    have hopen : c.after = ['\x7b'] ++ (inside ++ '\x7d' :: r) := by simp [← hr]
    have hinside := Cursor.after_beyond hopen
    have hclose := Cursor.after_beyond hinside
    refine mem_ways_seq.mpr ⟨_, mem_ways_char.mpr ⟨⟨_, hopen.symm⟩, rfl⟩, ?_⟩
    refine mem_ways_seq.mpr
      ⟨_, mem_ways_oneOrMore_set.mpr ⟨inside, hne, ⟨_, hinside.symm⟩, hall, rfl⟩, ?_⟩
    exact mem_ways_char.mpr ⟨⟨r, hclose.symm⟩, by simp⟩

/-- A part of a clause leads over a list or a run of names and at least one blank. -/
theorem mem_ways_clausePart :
    d ∈ clausePart.ways c ↔ ∃ item blank, IsPart item ∧ blank ≠ [] ∧
      (∀ x ∈ blank, isBlank x = true) ∧
      item ++ blank <+: c.after ∧ d = c.beyond (item ++ blank) := by
  have hitem : ∀ e, e ∈ (choice [nameList, oneOrMore (.set run)]).ways c ↔
      ∃ item, IsPart item ∧ item <+: c.after ∧ e = c.beyond item := by
    intro e
    have hchoice : choice [nameList, oneOrMore (.set run)] = nameList.alt (oneOrMore (.set run)) :=
      rfl
    rw [hchoice, mem_ways_alt, mem_ways_nameList, mem_ways_oneOrMore_set]
    constructor
    · rintro (⟨inside, hne, hall, hpre, rfl⟩ | ⟨t, hne, hpre, hall, rfl⟩)
      · exact ⟨_, .list hne hall, hpre, rfl⟩
      · exact ⟨_, .names hne hall, hpre, rfl⟩
    · rintro ⟨item, hpart, hpre, rfl⟩
      cases hpart with
      | list hne hall => exact .inl ⟨_, hne, hall, hpre, rfl⟩
      | names hne hall => exact .inr ⟨_, hne, hpre, hall, rfl⟩
  refine mem_ways_seq.trans ?_
  simp only [hitem]
  constructor
  · rintro ⟨e, ⟨item, hpart, ⟨r, hr⟩, rfl⟩, hgap⟩
    obtain ⟨blank, hne, hpre, hblank, rfl⟩ := mem_ways_oneOrMore_set.mp hgap
    rw [Cursor.after_beyond hr.symm] at hpre
    refine ⟨item, blank, hpart, hne, by simpa using hblank, ?_, by simp⟩
    rw [← hr]
    exact (List.prefix_append_right_inj item).mpr hpre
  · rintro ⟨item, blank, hpart, hne, hblank, ⟨r, hr⟩, rfl⟩
    have hafter : c.after = item ++ (blank ++ r) := by rw [← hr, List.append_assoc]
    refine ⟨c.beyond item, ⟨item, hpart, ⟨_, hafter.symm⟩, rfl⟩, ?_⟩
    refine mem_ways_oneOrMore_set.mpr ⟨blank, hne, ?_, by simpa using hblank, by simp⟩
    rw [Cursor.after_beyond hafter]
    exact List.prefix_append blank r

theorem advances_clausePart : clausePart.Advances := by
  intro c d hd
  obtain ⟨item, blank, -, hne, -, -, rfl⟩ := mem_ways_clausePart.mp hd
  have hpos := List.length_pos_iff.mpr hne
  simp only [Cursor.beyond, List.length_append]
  omega

/-- A part that stands before one blank is taken with it, in no other way. -/
theorem mem_ways_clausePart_of_isPart {y : Char} (h : c.after = item ++ ' ' :: y :: rest)
    (hitem : IsPart item) (hy : isBlank y = false) :
    d ∈ clausePart.ways c ↔ d = c.beyond (item ++ [' ']) := by
  rw [mem_ways_clausePart]
  constructor
  · rintro ⟨item', blank, hitem', hne, hblank, ⟨r, hr⟩, rfl⟩
    obtain ⟨x, blank, rfl⟩ := List.exists_cons_of_ne_nil hne
    have heq : item' ++ x :: (blank ++ r) = item ++ ' ' :: y :: rest := by
      rw [← h, ← hr]
      simp
    obtain ⟨rfl, hrest⟩ := hitem'.eq_of_append hitem (hblank x (by simp)) (by decide) heq
    -- A second blank would be the character after the first.
    cases blank with
    | nil =>
        obtain rfl : x = ' ' := (List.cons.inj (List.append_cancel_left heq)).1
        rfl
    | cons z blank =>
        obtain rfl : z = y := (List.cons.inj hrest).1
        simp [hblank z (by simp)] at hy
  · rintro rfl
    exact ⟨item, [' '], hitem, by simp, by simp [isBlank], ⟨y :: rest, by simp [h]⟩, rfl⟩

/-- A part starts with a brace or a character of a run. -/
theorem ways_clausePart_eq_nil {y : Char} (h : c.after = y :: rest) (hbrace : y ≠ '\x7b')
    (hy : run.contains y = false) : clausePart.ways c = [] := by
  rw [List.eq_nil_iff_forall_not_mem]
  intro d hd
  obtain ⟨item, blank, hitem, -, -, ⟨r, hr⟩, -⟩ := mem_ways_clausePart.mp hd
  rw [h] at hr
  cases hitem with
  | list hne hlisted => exact hbrace (List.cons.inj hr).1.symm
  | names hne hrun =>
      obtain ⟨z, t, rfl⟩ := List.exists_cons_of_ne_nil hne
      obtain rfl : z = y := (List.cons.inj hr).1
      simp [hrun z (by simp)] at hy

/-- Before its source, a list leads to two places: after the blank that follows it, and after the
word before the source. -/
theorem mem_ways_clause_list
    (h : c.after = item ++ ' ' :: ("from".toList ++ (' ' :: '\x27' :: rest)))
    (hitem : IsPart item) :
    d ∈ clause.ways c ↔ d = c.beyond (item ++ [' ']) ∨
      d = c.beyond (item ++ [' '] ++ "from ".toList) := by
  have hword : IsPart "from".toList := .names (by decide) (List.all_eq_true.mp (by decide))
  have hfrom : (c.beyond (item ++ [' '])).after = "from".toList ++ (' ' :: '\x27' :: rest) :=
    Cursor.after_beyond (by simp [h])
  have hquote : (c.beyond (item ++ [' '] ++ "from ".toList)).after = '\x27' :: rest :=
    Cursor.after_beyond (by simp [h])
  have hsecond : ∀ e, e ∈ clausePart.ways (c.beyond (item ++ [' '])) ↔
      e = c.beyond (item ++ [' '] ++ "from ".toList) := by
    intro e
    rw [mem_ways_clausePart_of_isPart hfrom hword (by decide), Cursor.beyond_beyond]
    rfl
  rw [clause_eq, mem_ways_oneOrMore advances_clausePart]
  simp only [mem_ways_clausePart_of_isPart h hitem (by decide : isBlank 'f' = false),
    exists_eq_left]
  constructor
  · intro hreach
    rcases Relation.ReflTransGen.cases_head hreach with heq | ⟨e, he, hreach⟩
    · exact .inl heq.symm
    · obtain rfl := (hsecond e).mp he
      rcases Relation.ReflTransGen.cases_head hreach with heq | ⟨e, he, -⟩
      · exact .inr heq.symm
      · rw [ways_clausePart_eq_nil hquote (by decide) (by decide)] at he
        simp at he
  · rintro (rfl | rfl)
    · exact .refl
    · exact .single ((hsecond _).mpr rfl)

/-- An import of a list is taken up to the word before its source, with the list and the blank after
it as group 1. -/
theorem takes_importClause
    (h : c.after =
      "import".toList ++
      (' ' ::
      (('\x7b' :: (inside ++ ['\x7d'])) ++ ' ' :: ("from".toList ++ (' ' :: '\x27' :: rest)))))
    (hne : inside ≠ []) (hinside : ∀ x ∈ inside, listed.contains x = true) :
    ∃ d, importClause.Takes c d ∧ d.after = ' ' :: '\x27' :: rest ∧
      d.groups = (1, '\x7b' :: (inside ++ ['\x7d', ' '])) :: c.groups := by
  obtain ⟨c₁, hword, hafter₁, hgroups₁⟩ := exists_takes_word h
  obtain ⟨c₂, hgap, hafter₂, hgroups₂⟩ := exists_takes_gap hafter₁ (by simp [isBlank])
  generalize hitem : '\x7b' :: (inside ++ ['\x7d']) = item at hafter₂
  have hpart : IsPart item := hitem ▸ .list hne hinside
  have htext : c₂.after = (item ++ [' ']) ++ ("from".toList ++ (' ' :: '\x27' :: rest)) := by
    simp [hafter₂]
  have hlead : c₂.Leads (c₂.beyond (item ++ [' '])) (item ++ [' ']) :=
    Cursor.leads_beyond ⟨_, htext.symm⟩
  generalize hcaptured : (c₂.beyond (item ++ [' '])).record 1 (item ++ [' ']) = c₃
  have hafter₃ : c₃.after = "from".toList ++ (' ' :: '\x27' :: rest) :=
    hcaptured ▸ Cursor.after_beyond htext
  have hend : (word "from").Takes c₃ (c₃.beyond "from".toList) := takes_word hafter₃
  have hafter₄ : (c₃.beyond "from".toList).after = ' ' :: '\x27' :: rest :=
    Cursor.after_beyond hafter₃
  have hedge : (c₃.beyond "from".toList).holds (.boundary .unicode) = true := by
    have hletter : isWord 'm' = true := by decide
    have hspace : isWord ' ' = false := by decide
    rw [Cursor.holds_boundary, hafter₄]
    simp [hletter, hspace]
  have hclause : ((Node.group 1 clause).seq ((word "from").seq wordEdge)).Takes c₂
      (c₃.beyond "from".toList) := by
    refine Takes.seq_of_forall (e := c₃) ?_ (hend.seq (takes_anchor hedge)) ?_
    · rw [ways, List.mem_map]
      exact ⟨_, (mem_ways_clause_list hafter₂ hpart).mpr (.inl rfl),
        (hlead.capture 1).trans hcaptured⟩
    · intro f hf
      rw [ways, List.mem_map] at hf
      obtain ⟨g, hg, rfl⟩ := hf
      rcases (mem_ways_clause_list hafter₂ hpart).mp hg with rfl | rfl
      · exact .inl ((hlead.capture 1).trans hcaptured)
      · -- The clause has taken the word before the source, so none follows.
        have hquote : (c₂.beyond (item ++ [' '] ++ "from ".toList)).after = '\x27' :: rest :=
          Cursor.after_beyond (by simp [hafter₂])
        refine .inr (List.eq_nil_iff_forall_not_mem.mpr fun d hd => ?_)
        obtain ⟨e, he, -⟩ := mem_ways_seq.mp hd
        obtain ⟨⟨r, hr⟩, -⟩ := mem_ways_word.mp he
        have hhead := congrArg List.head? (hr.trans hquote)
        simp at hhead
  refine ⟨_, hword.seq (hgap.seq hclause), hafter₄, ?_⟩
  rw [Cursor.groups_beyond, ← hcaptured, Cursor.groups_record, Cursor.groups_beyond, hgroups₂,
    hgroups₁, ← hitem]
  simp

end ScriptModules
