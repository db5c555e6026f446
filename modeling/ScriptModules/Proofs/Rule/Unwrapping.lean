import ScriptModules.Proofs.Rule.ImportLines
import ScriptModules.Proofs.Rule.WrapperMarks

/-!
# Wrappers that are taken off

That a script has a wrapper is found out before the first rule, and the wrapper is taken off by
rules that come after others. Those leave it in place as long as no import shares a line with its
end and no list of exports is closed by it. Main statement: the head of such a wrapper is removed,
and so is its end, unless blanks stand between the braces of the default for its argument; then the
end is left alone.
-/

namespace ScriptModules

open Pattern Pattern.Node Text Statement

namespace Statement

/-- The text of a list of exports that may go on, from its first word to a place before its closing
brace. -/
inductive OpensList : List Char → Prop
  | blank {blank : List Char} (hblank : ∀ x ∈ blank, isBlank x = true) :
      OpensList ("export".toList ++ blank)
  | names {blank names : List Char} (hblank : ∀ x ∈ blank, isBlank x = true)
      (hnames : ∀ x ∈ names, listed.contains x = true) :
        OpensList ("export".toList ++ (blank ++ '\x7b' :: names))

end Statement

/-- Every import is followed by a line break, and the ending comes after it. -/
def ImportsEnd (text ending : List Char) : Prop :=
  ∀ before head rest, text = before ++ (head ++ rest) → IsImport head →
    ∃ line next, rest = line ++ '\n' :: next ∧ ending <:+ next

/-- No statement starts in a list of exports, and no such list goes on up to the ending. -/
def ExportsEnd (text ending : List Char) : Prop :=
  ∀ before start rest, text = before ++ (start ++ rest) → OpensList start →
    (∀ w ∈ heads, ¬w <+: rest) ∧ ('\x7b' ∈ start → rest ≠ ending)

section Lists

variable {start s t : List Char}

theorem Statement.OpensList.word (h : OpensList start) : "export".toList <+: start := by
  cases h with
  | blank => exact List.prefix_append _ _
  | names => exact List.prefix_append _ _

theorem Statement.OpensList.of_append (h : OpensList (s ++ t)) (hs : "export".toList <+: s) :
    OpensList s := by
  obtain ⟨r, rfl⟩ := hs
  generalize htext : "export".toList ++ r ++ t = text at h
  rw [List.append_assoc] at htext
  cases h with
  | blank hblank =>
      obtain rfl := List.append_cancel_left htext
      exact .blank fun x hx => hblank x (List.mem_append_left _ hx)
  | @names blank names hblank hnames =>
      rcases List.append_eq_append_iff.mp (List.append_cancel_left htext) with
        ⟨u, rfl, -⟩ | ⟨u, rfl, hu⟩
      · exact .blank fun x hx => hblank x (List.mem_append_left _ hx)
      · cases u with
        | nil => exact .blank (by simpa using hblank)
        | cons y u =>
            obtain ⟨rfl, rfl⟩ := List.cons.inj hu
            exact .names hblank fun x hx => hnames x (List.mem_append_left _ hx)

theorem Statement.OpensList.not_mem (h : OpensList start) : '\x7d' ∉ start := by
  have hbrace : isBlank '\x7d' = false := by decide
  cases h with
  | blank hblank => simp [Rule.not_mem_of_allBlank hblank hbrace]
  | @names blank names hblank hnames =>
      have hlisted : '\x7d' ∉ names := by
        intro hmem
        have hin := hnames _ hmem
        rw [contains_listed_brace] at hin
        cases hin
      simp [Rule.not_mem_of_allBlank hblank hbrace, hlisted]

theorem Statement.OpensList.exists_brace (h : OpensList start) (hbrace : '\x7b' ∈ start) :
    ∃ blank names, Rule.AllBlank blank ∧ start = "export".toList ++ (blank ++ '\x7b' :: names) := by
  cases h with
  | @blank blank hblank =>
      rcases List.mem_append.mp hbrace with h | h
      · exact absurd h (by decide)
      · exact absurd h (Rule.not_mem_of_allBlank hblank (by decide))
  | names hblank => exact ⟨_, _, hblank, rfl⟩

theorem Statement.WrittenSource.not_mem {tail : List Char} {source : Option (List Char)}
    (h : WrittenSource sourced source tail) : '\x7d' ∉ tail := by
  cases h with
  | absent => simp
  | @present blank source q r hblank hq hr hne hall =>
      simp only [List.mem_append, List.mem_cons, List.not_mem_nil, or_false]
      rintro (h | h | rfl | h | rfl)
      · exact absurd h (by decide)
      · exact Rule.not_mem_of_allBlank hblank (by decide) h
      · exact absurd hq (by decide)
      · exact absurd (hall _ h) (by decide)
      · exact absurd hr (by decide)

/-- A list of exports is read up to its closing brace, and no other one is read with it. -/
theorem exists_list_of_matchAt {c : Cursor} {m : Match} (h : exportList.matchAt false c = some m) :
    ∃ start rest, OpensList start ∧ '\x7b' ∈ start ∧ '\x7d' ∉ rest ∧
      c.after = start ++ '\x7d' :: (rest ++ m.last.after) := by
  obtain ⟨inside, source, text, stop, -, hlist, hstop, hafter⟩ :=
    passes_exportList (matchAt_sound h).2
  have hstop' : '\x7d' ∉ stop := by rcases hstop with rfl | rfl <;> simp
  cases hlist with
  | @intro blank trail tail hblank hinside htrail hsource =>
      refine ⟨_, trail ++ (tail ++ stop), .names hblank hinside, by simp, ?_, ?_⟩
      · simp [Rule.not_mem_of_allBlank htrail (by decide : isBlank '\x7d' = false),
          hsource.not_mem, hstop']
      · rw [← Cursor.after_fresh, hafter]
        simp

/-- An import goes on after blanks with a brace or a name. -/
theorem Statement.IsImport.exists_heading {head : List Char} (h : IsImport head) :
    ∃ blank y next, blank ≠ [] ∧ Rule.AllBlank blank ∧ (isBlank y = false ∧ y ≠ '(' ∧ y ≠ ')') ∧
      head = "import".toList ++ (blank ++ y :: next) := by
  cases h with
  | @intro blank clause hne hblank hclause =>
      obtain ⟨y, next, hy, rfl⟩ := hclause.head
      refine ⟨blank, y, next ++ "from".toList, hne, hblank, ?_, by simp⟩
      rcases hy with rfl | hy
      · decide
      · refine ⟨isBlank_of_run hy, ?_, ?_⟩
        · rintro rfl
          exact absurd hy (by decide)
        · rintro rfl
          exact absurd hy (by decide)

end Lists

namespace Rule

section Ends

variable {k : Closer} {inner closing a blank rest : List Char}

/-- A brace in the end of a wrapper opens the default for the argument. -/
theorem WrittenCloser.exists_bar {p q : List Char} (h : WrittenCloser k inner closing)
    (hsplit : closing = p ++ '\x7b' :: q) : ∃ p' b, AllBlank b ∧ p = p' ++ '|' :: b := by
  have hblank : isBlank '\x7b' = false := by decide
  have hmem : '\x7b' ∈ closing := by rw [hsplit]; simp
  cases h with
  | @outside b₁ b₂ args _ default tail h₁ h₂ hargs hdefault htail =>
      have hargs' := not_mem_argument hargs (by decide : argument.contains '\x7b' = false)
      have htail' := htail.not_mem hblank (by decide)
      cases hdefault with
      | absent =>
          simp [not_mem_of_allBlank h₁ hblank, not_mem_of_allBlank h₂ hblank, hargs', htail']
            at hmem
      | @present b _ b' hb hinner hb' =>
          have hbraces :
              ('\x7d' :: (b₁ ++ ')' :: (b₂ ++ '(' :: (args ++ '|' :: '|' :: b)))) ++ '\x7b' ::
              (inner ++ '\x7d' :: (b' ++ ')' :: tail)) = p ++ '\x7b' :: q := by simpa using hsplit
          obtain ⟨rfl, -⟩ := (List.append_cons_inj_of_notMem
            (by simp [not_mem_of_allBlank h₁ hblank, not_mem_of_allBlank h₂ hblank, hargs',
              not_mem_of_allBlank hb hblank])
            (by simp [not_mem_of_allBlank hinner hblank, not_mem_of_allBlank hb' hblank,
              htail'])).mp hbraces
          exact ⟨'\x7d' :: (b₁ ++ ')' :: (b₂ ++ '(' :: (args ++ ['|']))), b, hb, by simp⟩
  | @inside b₁ b₂ name b₃ b₄ tail h₁ h₂ hname h₃ h₄ htail =>
      simp [not_mem_of_allBlank h₁ hblank, not_mem_of_allBlank h₂ hblank,
        not_mem_of_allBlank h₃ hblank, not_mem_of_allBlank h₄ hblank,
        not_mem_name hname (by decide : isIdent '\x7b' = false), htail.not_mem hblank (by decide)]
        at hmem

/-- No list of exports starts in the end of a wrapper. -/
theorem WrittenCloser.not_list (h : WrittenCloser k inner closing) (hblank : AllBlank blank)
    (hsplit : closing = a ++ ("export".toList ++ (blank ++ '\x7b' :: rest))) : False := by
  obtain ⟨p, b, hb, hbar⟩ :=
    h.exists_bar (p := a ++ ("export".toList ++ blank)) (q := rest) (by simp [hsplit])
  have hends : p ++ '|' :: b = (a ++ "expor".toList) ++ 't' :: blank := by simp [← hbar]
  exact absurd (eq_of_append_of_allBlank hb hblank (by decide) (by decide) hends) (by decide)

/-- No list of exports that is still open ends in the end of a wrapper. -/
theorem WrittenCloser.not_opens {start before front u next : List Char}
    (h : WrittenCloser k inner closing) (hopens : OpensList start) (hbrace : '\x7b' ∈ start)
    (hcut : before ++ start = front ++ u) (hu : u ≠ []) (hsplit : closing = u ++ next) : False := by
  rcases List.append_eq_append_iff.mp hcut with ⟨v, -, hv⟩ | ⟨v, -, rfl⟩
  · obtain ⟨x, u, rfl⟩ := List.exists_cons_of_ne_nil hu
    obtain ⟨call, after, hcall, -⟩ := h.exists_call
    obtain rfl : x = '\x7d' := (List.cons.inj (hsplit.symm.trans hcall)).1
    exact hopens.not_mem (by rw [hv]; simp)
  · obtain ⟨blank, names, hblank, rfl⟩ := hopens.exists_brace hbrace
    have hlist : closing = v ++ ("export".toList ++ (blank ++ '\x7b' :: (names ++ next))) := by
      rw [hsplit]
      simp
    exact h.not_list hblank hlist

end Ends

section Sparing

variable {k : Closer} {n : Node} {f : Match → List Char}
  {lead opener front middle ending inner : List Char}

theorem after_of_split {a b : List Char} {x : Char} (hab : front = a ++ x :: b) :
    ((Cursor.start (front ++ (middle ++ ending))).beyond a).after =
      x :: b ++ (middle ++ ending) := by
  apply Cursor.after_beyond
  simp only [Cursor.start, hab, List.append_assoc]

/-- No import starts in the head of a wrapper, and those after it end before its end. -/
theorem spares_importLine (hlead : AllBlank lead) (hopener : WrittenOpener opener)
    (h : ImportsEnd ((lead ++ opener) ++ (middle ++ ending)) ending) :
    Spares importLine (lead ++ opener) middle ending where
  head a x b hab := by
    rw [Option.eq_none_iff_forall_not_mem]
    intro m hm
    obtain ⟨head, line, himport, -, -, hafter⟩ := exists_line_of_matchAt hm
    obtain ⟨blank, y, next, hne, hblank, hy, rfl⟩ := himport.exists_heading
    have heading : x :: b ++ (middle ++ ending) =
        "import".toList ++ (blank ++ y :: (next ++ (line ++ m.last.after))) := by
      rw [← after_of_split hab, hafter]
      simp
    exact hopener.not_heading hlead hab (by simp) heading (words_heads _ (by decide)) hblank hy
      (.inl hne)
  body {e m a b} hlead' hab _ hm := by
    obtain ⟨head, line, himport, -, hbreak, hafter⟩ := exists_line_of_matchAt hm
    have htext : (lead ++ opener) ++ (middle ++ ending) =
        ((lead ++ opener) ++ a) ++ (head ++ (line ++ m.last.after)) := by
      rw [← hafter, after_of_leads hlead' hab, hab]
      simp
    obtain ⟨line', next, hnext, hending⟩ := h _ _ _ htext himport
    obtain ⟨u, rfl⟩ : line <+: line' := prefix_of_not_mem ⟨_, hnext⟩ hbreak
    rw [List.append_assoc] at hnext
    rw [List.append_cancel_left hnext, List.length_append, List.length_cons]
    have hlength := hending.length_le
    omega

/-- An ending in which no match starts stays as it is. -/
theorem replacedAt_ending (hn : n.Advances)
    (h : ∀ {c : Cursor} {a b : List Char}, ending = a ++ b → c.after = b →
      n.matchAt false c = none) :
    n.replacedAt f ((Cursor.start (front ++ ending)).beyond front) = ending := by
  have hafter : ((Cursor.start (front ++ ending)).beyond front).after = ending :=
    Cursor.after_beyond rfl
  calc
    n.replacedAt f ((Cursor.start (front ++ ending)).beyond front)
        = ((Cursor.start (front ++ ending)).beyond front).after :=
      Node.replacedAt_eq_after hn fun a b hab => h (hafter.symm.trans hab) (Cursor.after_beyond hab)
    _ = ending := hafter

/-- No import starts in the end of a wrapper. -/
theorem replacedAt_importLine (h : ImportsEnd (front ++ ending) ending) :
    importLine.replacedAt f ((Cursor.start (front ++ ending)).beyond front) = ending := by
  refine replacedAt_ending strips_importLine.advances fun {c a b} hab hc => ?_
  rw [Option.eq_none_iff_forall_not_mem]
  intro m hm
  obtain ⟨head, line, himport, -, -, hline⟩ := exists_line_of_matchAt hm
  rw [hc] at hline
  obtain ⟨line', next, hnext, hending⟩ := h (front ++ a) head (line ++ m.last.after)
    (by rw [hab, hline, List.append_assoc]) himport
  have hlength := hending.length_le
  rw [hab, hline, hnext] at hlength
  simp only [List.length_append, List.length_cons] at hlength
  omega

/-- No list of exports starts in the end of a wrapper. -/
theorem replacedAt_exportList (h : WrittenCloser k inner ending) :
    exportList.replacedAt f ((Cursor.start (front ++ ending)).beyond front) = ending := by
  refine replacedAt_ending strips_exportList.advances fun {c a b} hab hc => ?_
  rw [Option.eq_none_iff_forall_not_mem]
  intro m hm
  obtain ⟨start, rest, hopens, hbrace, -, hafter⟩ := exists_list_of_matchAt hm
  obtain ⟨blank, names, hblank, rfl⟩ := hopens.exists_brace hbrace
  have hopen : ending = a ++ ("export".toList ++
      (blank ++ '\x7b' :: (names ++ '\x7d' :: (rest ++ m.last.after)))) := by
    rw [hab, ← hc, hafter]
    simp
  exact h.not_list hblank hopen

/-- No list of exports starts in the head of a wrapper, and those after it end before its end. -/
theorem spares_exportList (hlead : AllBlank lead) (hopener : WrittenOpener opener)
    (hcloser : WrittenCloser k inner ending)
    (h : ExportsEnd ((lead ++ opener) ++ (middle ++ ending)) ending) :
    Spares exportList (lead ++ opener) middle ending where
  head a x b hab := by
    rw [Option.eq_none_iff_forall_not_mem]
    intro m hm
    obtain ⟨start, rest, hopens, hbrace, -, hafter⟩ := exists_list_of_matchAt hm
    obtain ⟨blank, names, hblank, rfl⟩ := hopens.exists_brace hbrace
    have heading : x :: b ++ (middle ++ ending) =
        "export".toList ++ (blank ++ '\x7b' :: (names ++ '\x7d' :: (rest ++ m.last.after))) := by
      rw [← after_of_split hab, hafter]
      simp
    exact hopener.not_heading hlead hab (by simp) heading (words_heads _ (by decide)) hblank
      (by decide) (.inr rfl)
  body {e m a b} hlead' hab _ hm := by
    obtain ⟨start, rest, hopens, hbrace, hother, hafter⟩ := exists_list_of_matchAt hm
    obtain ⟨call, after, rfl, -⟩ := hcloser.exists_call
    rw [after_of_leads hlead' hab] at hafter
    -- the list is closed before the wrapper is, and no other brace belongs to it
    rcases eq_or_exists_of_append hafter hopens.not_mem with ⟨rfl, -⟩ | ⟨u, rfl⟩
    · refine absurd rfl ((h ((lead ++ opener) ++ a) b _ ?_ hopens).2 hbrace)
      rw [hab]
      simp only [List.append_assoc]
    · rw [List.append_assoc, List.cons_append] at hafter
      have hrest := (List.cons.inj (List.append_cancel_left hafter)).2
      obtain ⟨v, rfl⟩ : rest <+: u := prefix_of_not_mem ⟨_, hrest.symm⟩ hother
      rw [List.append_assoc] at hrest
      rw [← List.append_cancel_left hrest, List.length_append]
      exact Nat.le_add_left _ _

end Sparing

section Statements

variable {k : Closer} {n : Node} {f : Match → List Char}
  {lead opener front middle ending inner text : List Char}

/-- Every match that starts before the end of the wrapper ends before it. -/
theorem Spares.length_le (h : Spares n front middle ending) {e : Cursor} {m : Match}
    {a b : List Char} (hlead : (Cursor.start (front ++ (middle ++ ending))).Leads e a)
    (hab : front ++ middle = a ++ b) (hb : b ≠ []) (hm : n.matchAt false e = some m) :
    ending.length ≤ m.last.after.length := by
  have hbody : ∀ {u : List Char}, a = front ++ u → middle = u ++ b →
      ending.length ≤ m.last.after.length := by
    rintro u rfl hmiddle
    have hc : (Cursor.start (front ++ (middle ++ ending))).after = front ++ (middle ++ ending) :=
      rfl
    refine h.body ⟨?_, ?_, ?_⟩ hmiddle hb hm
    · rw [Cursor.after_beyond hc]
      have hafter := hlead.after
      rw [hc, List.append_assoc] at hafter
      exact List.append_cancel_left hafter
    · simp [hlead.before]
    · simp [hlead.pos, Cursor.beyond, Nat.add_assoc]
  rcases List.append_eq_append_iff.mp hab with ⟨u, ha, hmiddle⟩ | ⟨u, hfront, hmiddle⟩
  · exact hbody ha hmiddle
  · cases u with
    | nil => exact hbody (u := []) (by simpa using hfront.symm) (by simpa using hmiddle.symm)
    | cons x u =>
        rw [matchAt_congr hlead.fresh_eq, h.head a x u hfront] at hm
        cases hm

/-- The lists of exports that end before the wrapper does still do so after a rule that spares the
wrapper. -/
theorem exportsEnd_replace (hn : Strips n f) (hspares : Spares n front middle ending)
    (hcloser : WrittenCloser k inner ending) (h : ExportsEnd (front ++ (middle ++ ending)) ending) :
    ExportsEnd (n.replace none f (front ++ (middle ++ ending)))
      (n.replacedAt f ((Cursor.start (front ++ (middle ++ ending))).beyond (front ++ middle))) := by
  intro before start rest hsplit hopens
  have hlists : ∀ {c : Cursor}, c.text = front ++ (middle ++ ending) → ∀ s t, c.after = s ++ t →
      OpensList s →
      ∀ w ∈ heads, ¬w <+: t := by
    intro c hc s t hst hs
    refine (h c.before.reverse s t ?_ hs).1
    rw [← hst]
    exact hc.symm
  obtain ⟨a, e, hlead, -, -, hafter, hfree, hrest, hheads⟩ :=
    @exists_opening n f _ _ OpensList _ _ _ _ hn
    (by decide) OpensList.word OpensList.of_append (fun hc _ _ => hlists hc) hsplit hopens
  refine ⟨hheads, fun hbrace hsame => ?_⟩
  have htext : front ++ (middle ++ ending) = a ++ (start ++ (e.beyond start).after) := by
    rw [← hafter]
    exact hlead.after
  have hapart := (h a start _ htext hopens).2 hbrace
  have hcuts : (a ++ start) ++ (e.beyond start).after = (front ++ middle) ++ ending := by
    simpa using htext.symm
  rcases List.append_eq_append_iff.mp hcuts with ⟨u, hu, hnext⟩ | ⟨u, hu, hnext⟩
  · cases u with
    | nil => exact hapart (by simpa using hnext)
    | cons x u =>
        -- the first character after the list is copied, so more than the ending is left
        have hbeyond : (Cursor.start (front ++ (middle ++ ending))).Leads
            ((e.beyond start).beyond [x])
            (a ++ (start ++ [x])) :=
          hlead.trans
            ((Cursor.leads_beyond ⟨_, hafter.symm⟩).trans (Cursor.leads_beyond ⟨_, hnext.symm⟩))
        have hlast : ((e.beyond start).beyond [x]).after = u ++ ending := Cursor.after_beyond hnext
        obtain ⟨out, hout, -⟩ :=
          exists_replacedAt_append (f := f) (p := fun _ => True) hn.advances hlast
          (fun hlead' hab hb hm => hspares.length_le (hbeyond.trans hlead')
            (by rw [hu, hab]; simp) hb hm)
          (by simp) (by simp)
        have hfresh : (((e.beyond start).beyond [x]).beyond u).fresh =
            ((Cursor.start (front ++ (middle ++ ending))).beyond (front ++ middle)).fresh := by
          rw [(hbeyond.trans (Cursor.leads_beyond ⟨_, hlast.symm⟩)).fresh_eq, hu]
          simp
        rw [hrest, replacedAt_skipped hn.advances hfree hnext, hout,
          replacedAt_congr hn.advances hfresh] at hsame
        have hlength := congrArg List.length hsame
        simp only [List.length_cons, List.length_append] at hlength
        omega
  · refine hcloser.not_opens hopens hbrace hu ?_ hnext
    rintro rfl
    exact hapart (by simpa using hnext.symm)

/-- The text has the given head and ends as a wrapper does, and its lists of exports end before. -/
def Enclosed (front : List Char) (k : Closer) (inner text : List Char) : Prop :=
  ∃ middle ending, WrittenCloser k inner ending ∧ text = front ++ (middle ++ ending) ∧
    ExportsEnd text ending

theorem enclosed_replace (hn : Strips n f) (hspares : Spares n front middle ending)
    (hcloser : WrittenCloser k inner ending) (h : ExportsEnd (front ++ (middle ++ ending)) ending)
    (hend : WrittenCloser k inner
      (n.replacedAt f ((Cursor.start (front ++ (middle ++ ending))).beyond (front ++ middle)))) :
    Enclosed front k inner (n.replace none f (front ++ (middle ++ ending))) := by
  obtain ⟨middle', hmiddle⟩ := hspares.exists_replace_eq hn.advances f
  exact ⟨middle', _, hend, hmiddle, exportsEnd_replace hn hspares hcloser h⟩

theorem enclosed_importLine (hlead : AllBlank lead) (hopener : WrittenOpener opener)
    (hcloser : WrittenCloser k inner ending)
    (himports : ImportsEnd ((lead ++ opener) ++ (middle ++ ending)) ending)
    (hexports : ExportsEnd ((lead ++ opener) ++ (middle ++ ending)) ending) :
    Enclosed (lead ++ opener) k inner
      (importLine.remove ((lead ++ opener) ++ (middle ++ ending))) := by
  apply enclosed_replace strips_importLine (spares_importLine hlead hopener himports)
    hcloser hexports
  rw [← List.append_assoc] at himports ⊢
  rwa [replacedAt_importLine himports]

theorem Enclosed.exported {n : Node} {words : List String} (hk : ReadsKeyword n f words)
    (hlead : AllBlank lead) (hopener : WrittenOpener opener)
    (h : Enclosed (lead ++ opener) k inner text) :
    Enclosed (lead ++ opener) k inner ((exported n).replace none f text) := by
  obtain ⟨middle, ending, hcloser, rfl, hexports⟩ := h
  have hn := markless_exported hk
  apply enclosed_replace (strips_exported hk) (hn.spares hlead hopener hcloser) hcloser hexports
  have hc : (Cursor.start ((lead ++ opener) ++ (middle ++ ending))).after =
      ((lead ++ opener) ++ middle) ++ ending := by
    simp [Cursor.start]
  apply hn.closer
  rwa [Cursor.after_beyond hc]

theorem Enclosed.exportList (hlead : AllBlank lead) (hopener : WrittenOpener opener)
    (h : Enclosed (lead ++ opener) k inner text) :
    Wrapped (lead ++ opener) k inner (exportList.remove text) := by
  obtain ⟨middle, ending, hcloser, rfl, hexports⟩ := h
  have hspares := spares_exportList hlead hopener hcloser hexports
  obtain ⟨middle', hmiddle⟩ := hspares.exists_replace_eq strips_exportList.advances fun _ => []
  refine ⟨middle', _, ?_, hmiddle⟩
  rw [← List.append_assoc]
  rwa [replacedAt_exportList hcloser]

/-- The rules for module statements leave a wrapper in place. -/
theorem wrapped_moduleStatements (hlead : AllBlank lead) (hopener : WrittenOpener opener)
    (hcloser : WrittenCloser k inner ending)
    (himports : ImportsEnd ((lead ++ opener) ++ (middle ++ ending)) ending)
    (hexports : ExportsEnd ((lead ++ opener) ++ (middle ++ ending)) ending) :
    ∃ outcome, applyAll moduleStatements ((lead ++ opener) ++ (middle ++ ending)) = .ok outcome ∧
      Wrapped (lead ++ opener) k inner outcome := by
  have hvar : "var" ∈ keywords := by decide
  have hfunction : "function" ∈ keywords := by decide
  refine ⟨_, applyAll_moduleStatements _, Enclosed.exportList hlead hopener ?_⟩
  apply Enclosed.exported readsKeyword_group hlead hopener
  apply Enclosed.exported (readsKeyword_word hfunction) hlead hopener
  apply Enclosed.exported (readsKeyword_word hvar) hlead hopener
  exact enclosed_importLine hlead hopener hcloser himports hexports

/-- The rules for the exported members leave a wrapper in place. -/
theorem wrapped_declarations {namespaceName : String} {exports : List Export}
    (hlead : AllBlank lead) (hopener : WrittenOpener opener)
    (hnamespace : Unmarked namespaceName.toList)
    (hnames : ∀ name ∈ exports.filterMap Export.plain?, Unmarked name.toList ∧ '\\' ∉ name.toList)
    (h : Wrapped (lead ++ opener) k inner text) :
    ∃ outcome, applyAll (declarations namespaceName exports) text = .ok outcome ∧
      Wrapped (lead ++ opener) k inner outcome := by
  rw [declarations]
  generalize exports.filterMap Export.plain? = names at hnames
  induction names generalizing text with
  | nil => exact ⟨text, rfl, h⟩
  | cons name names ih =>
      obtain ⟨hname, hplain⟩ := hnames name (by simp)
      have hassigned := (markless_assignment hnamespace hname).wrapped hlead hopener h
      obtain ⟨outcome, hrest, hwrapped⟩ := ih (markless_chain.wrapped hlead hopener hassigned)
        fun other hother => hnames other (List.mem_cons_of_mem name hother)
      refine ⟨outcome, ?_, hwrapped⟩
      rw [List.flatMap_cons, applyAll_append, rule_assignment hplain]
      simp only [applyAll_cons, apply_replacing, applyAll_nil, bind, Except.bind]
      exact hrest

end Statements

section Unwrapping

variable {k : Closer} {lead opener front ending inner : List Char}

theorem apply_onlyFirst (n : Node) (s : String) (text : List Char) :
    (replacing n s).onlyFirst.apply text = .ok (n.replace (some 1) (fun _ => s.toList) text) := by
  change Except.ok (n.replace (some 1) (Template.verbatim s).expand text) = _
  rw [expand_verbatim]

/-- The head of a wrapper is removed. -/
theorem apply_opener (hlead : AllBlank lead) (hopener : WrittenOpener opener) (rest : List Char) :
    (removing wrapperOpener).onlyFirst.apply (lead ++ (opener ++ rest)) = .ok (lead ++ rest) := by
  have hn : wrapperOpener.Advances := advances_seq_left (advances_set _)
  have hafter : ((Cursor.start (lead ++ (opener ++ rest))).beyond lead).after = opener ++ rest :=
    Cursor.after_beyond rfl
  obtain ⟨d, hd, hlast⟩ :=
    consumes_wrapperOpener hopener rest ((Cursor.start _).beyond lead).fresh hafter
  rw [removing, apply_onlyFirst, replace_one hn ?_ hd.matchAt hlast]
  · rfl
  · intro a x b hab
    rw [Option.eq_none_iff_forall_not_mem]
    intro m hm
    obtain ⟨c, hopen, -⟩ := mem_ways_seq.mp (matchAt_sound hm).2
    have hc : (Cursor.start (lead ++ (opener ++ rest))).after =
        a ++ (x :: b ++ (opener ++ rest)) := by
      simp only [Cursor.start, hab, List.append_assoc]
    have hparen := (passes_char hopen).1
    rw [Cursor.after_fresh, Cursor.after_beyond hc] at hparen
    obtain rfl : x = '(' := (List.cons.inj hparen).1
    exact not_mem_of_allBlank hlead (by decide : isBlank '(' = false) (by rw [hab]; simp)

/-- The end of a wrapper is replaced by a line break, unless blanks stand in its default. -/
theorem apply_closer (h : WrittenCloser k inner ending) (front : List Char) :
    (replacing k.pattern "\n").onlyFirst.apply (front ++ ending) =
      .ok (front ++ if inner = [] then ['\n'] else ending) := by
  have hn := advances_closer k
  rw [apply_onlyFirst]
  by_cases hinner : inner = []
  · subst hinner
    have hafter : ((Cursor.start (front ++ (ending ++ []))).beyond front).after = ending := by
      rw [Cursor.after_beyond rfl, List.append_nil]
    obtain ⟨d, hd, hlast⟩ :=
      consumes_closer h ((Cursor.start (front ++ (ending ++ []))).beyond front).fresh hafter
    have hfirst := replace_one (f := fun _ => "\n".toList) hn (fun a x b hab => by
      rw [Option.eq_none_iff_forall_not_mem]
      intro m hm
      obtain ⟨closing, stop, hwritten, hclosing, hstop⟩ := exists_writtenCloser_of_matchAt hm
      have hc : (Cursor.start (front ++ (ending ++ []))).after = a ++ (x :: b ++ ending) := by
        simp [Cursor.start, hab]
      rw [Cursor.after_beyond hc] at hclosing
      exact absurd (hwritten.eq_nil_of_append h hstop hclosing.symm) (by simp)) hd.matchAt hlast
    rw [List.append_nil] at hfirst
    rw [hfirst, if_pos rfl]
    rfl
  · rw [if_neg hinner, replace_eq_self hn]
    intro a b hab
    rw [Option.eq_none_iff_forall_not_mem]
    intro m hm
    obtain ⟨closing, stop, hwritten, hclosing, hstop⟩ := exists_writtenCloser_of_matchAt hm
    rw [Cursor.after_beyond (c := Cursor.start _) hab] at hclosing
    cases k with
    | outside => exact h.not_spaced hinner hwritten hstop (by rw [← hclosing, ← hab])
    | inside =>
        cases h
        exact hinner rfl

end Unwrapping

/-- A script with a wrapper gets the rules that take it off. The rules before leave the wrapper in
place, the head is removed, and the end is replaced by a line break exactly if no blanks stand
between the braces of the default for the argument. -/
theorem wrapper_taken_off {namespaceName : String} {exports : List Export} {closer : Closer}
    {lead opener middle inner ending : List Char} (hlead : AllBlank lead)
    (hopener : WrittenOpener opener) (hending : WrittenCloser closer inner ending)
    (himports : ImportsEnd ((lead ++ opener) ++ (middle ++ ending)) ending)
    (hexports : ExportsEnd ((lead ++ opener) ++ (middle ++ ending)) ending)
    (hnamespace : Unmarked namespaceName.toList)
    (hnames : ∀ name ∈ exports.filterMap Export.plain?, Unmarked name.toList ∧ '\\' ∉ name.toList) :
    (buildRules namespaceName exports none
      (.ofList ((lead ++ opener) ++ (middle ++ ending)))).run.value =
      .ok (standard namespaceName exports (some closer)) ∧
    ∃ middle' ending', WrittenCloser closer inner ending' ∧
      applyAll (moduleStatements ++ declarations namespaceName exports)
        ((lead ++ opener) ++ (middle ++ ending)) =
        .ok (lead ++ (opener ++ (middle' ++ ending'))) ∧
      (removing wrapperOpener).onlyFirst.apply (lead ++ (opener ++ (middle' ++ ending'))) =
        .ok (lead ++ (middle' ++ ending')) ∧
      (replacing closer.pattern "\n").onlyFirst.apply (lead ++ (middle' ++ ending')) =
        .ok (lead ++ (middle' ++ if inner = [] then ['\n'] else ending')) := by
  constructor
  · have hfound : closerOf ((lead ++ opener) ++ (middle ++ ending)) = .ok (some closer) := by
      rw [List.append_assoc]
      exact closerOf_eq hlead hopener hending
    refine Work.value_bind_eq_ok.mpr ⟨some closer, ?_, ?_⟩
    · rw [String.toList_ofList, hfound]
      rfl
    · refine Work.value_bind_eq_ok.mpr ⟨(), rfl, ?_⟩
      simp
  · obtain ⟨outcome, hstatements, hwrapped⟩ :=
      wrapped_moduleStatements hlead hopener hending himports hexports
    obtain ⟨outcome, hdeclarations, middle', ending', hending', rfl⟩ :=
      wrapped_declarations hlead hopener hnamespace hnames hwrapped
    refine ⟨middle', ending', hending', ?_, apply_opener hlead hopener _, ?_⟩
    · rw [applyAll_append, hstatements, ← List.append_assoc lead]
      exact hdeclarations
    · simpa using apply_closer hending' (lead ++ middle')

section Samples

variable {text ending : List Char}

/-- Where the last line before the ending does not hold the word `from`, every import ends before
it. -/
theorem importsEnd_of_line {front tail : List Char} (htext : text = front ++ '\n' :: tail)
    (hending : ending <:+ tail) (hfrom : ¬"from".toList <:+: tail) : ImportsEnd text ending := by
  intro before head rest hsplit himport
  obtain ⟨start, rfl⟩ : ∃ start, head = start ++ "from".toList := by
    cases himport with
    | @intro blank clause _ _ _ => exact ⟨"import".toList ++ (blank ++ clause), by simp⟩
  have hcuts : ((before ++ start) ++ "from".toList) ++ rest = front ++ '\n' :: tail := by
    rw [← htext, hsplit]
    simp
  rcases List.append_eq_append_iff.mp hcuts with ⟨u, -, hrest⟩ | ⟨u, hu, hrest⟩
  · exact ⟨u, tail, hrest, hending⟩
  · cases u with
    | nil => exact ⟨[], tail, hrest.symm, hending⟩
    | cons y u =>
        obtain ⟨rfl, rfl⟩ := List.cons.inj hrest
        have hsuffix : (before ++ start) ++ "from".toList = (front ++ ['\n']) ++ u := by
          simpa using hu
        refine absurd ?_ hfrom
        rcases List.append_eq_append_iff.mp hsuffix with ⟨v, hv, hword⟩ | ⟨v, hv, rfl⟩
        · rcases List.eq_nil_or_concat' v with rfl | ⟨v, z, rfl⟩
          · exact ⟨[], rest, by rw [hword]; rfl⟩
          · rw [← List.append_assoc] at hv
            obtain rfl : z = '\n' := by simpa using (List.append_inj' hv rfl).2.symm
            exact absurd (by rw [hword]; simp : '\n' ∈ "from".toList) (by decide)
        · exact ⟨v, rest, rfl⟩

/-- A character of a list of exports after its first word. -/
def inList (x : Char) : Bool := x == '\x7b' || listed.contains x

/-- The word `export` need only be looked up where it stands. -/
theorem exportsEnd_of_positions (positions : List Nat)
    (hall : ∀ n ≤ text.length, "export".toList <+: text.drop n → n ∈ positions)
    (hnext : ∀ n ∈ positions, ∀ m ≤ ((text.drop (n + 6)).takeWhile inList).length,
      (∀ w ∈ heads, ¬w <+: text.drop (n + 6 + m)) ∧ text.drop (n + 6 + m) ≠ ending) :
    ExportsEnd text ending := by
  intro before start rest hsplit hopens
  obtain ⟨s, rfl⟩ := hopens.word
  have hlist : ∀ x ∈ s, inList x = true := by
    generalize hstart : "export".toList ++ s = start at hopens
    cases hopens with
    | blank hblank =>
        obtain rfl := List.append_cancel_left hstart
        intro x hx
        simp [inList, contains_listed, hblank x hx]
    | names hblank hnames =>
        obtain rfl := List.append_cancel_left hstart
        intro x hx
        rcases List.mem_append.mp hx with hx | hx
        · simp [inList, contains_listed, hblank x hx]
        · rcases List.mem_cons.mp hx with rfl | hx
          · decide
          · simp [inList, hnames x hx]
  have hword : text.drop before.length = "export".toList ++ (s ++ rest) := by
    rw [hsplit, List.drop_left, List.append_assoc]
  have hafter : text.drop (before.length + 6) = s ++ rest := by
    rw [← List.drop_drop, hword]
    rfl
  have hlength : before.length ≤ text.length := by
    rw [hsplit, List.length_append]
    exact Nat.le_add_right _ _
  have hreach : s.length ≤ ((text.drop (before.length + 6)).takeWhile inList).length := by
    rw [hafter, List.takeWhile_append_of_pos hlist, List.length_append]
    exact Nat.le_add_right _ _
  have hrest : text.drop (before.length + 6 + s.length) = rest := by
    rw [← List.drop_drop, hafter, List.drop_left]
  obtain ⟨hheads, hother⟩ := hnext _ (hall _ hlength ⟨_, hword.symm⟩) _ hreach
  rw [hrest] at hheads hother
  exact ⟨hheads, fun _ => hother⟩

/-- The head of a wrapper whose parameter starts with the word `export`. -/
def sampleHead : List Char := "(function ( exports ) \x7b".toList

/-- A body with an import, a list of exports and an assignment to a member. -/
def sampleBody : List Char := "\nimport a from './a'\nexport \x7b b \x7d;\nLib.File = a;\n".toList

/-- The end of a wrapper with an assignment to a member in its argument. -/
def sampleEnd : List Char := "\x7d ) ( Lib.File = window.Lib || \x7b\x7d ) ;\n".toList

theorem writtenOpener_sampleHead : WrittenOpener sampleHead := by
  have htext : sampleHead =
      '(' :: ([] ++ ("function".toList ++ ([' '] ++ '(' :: ([' '] ++ ("exports".toList ++
      ([' '] ++ ')' :: ([' '] ++ ['\x7b']))))))) := by decide
  have hblank : AllBlank [' '] := List.all_eq_true.mp (by decide)
  have hname : ∀ x ∈ "exports".toList, isIdent x = true := List.all_eq_true.mp (by decide)
  rw [htext]
  exact .intro allBlank_nil hblank hblank hname hblank hblank

theorem writtenCloser_sampleEnd : WrittenCloser .outside [] sampleEnd := by
  have htext :
      sampleEnd = '\x7d' :: ([' '] ++ ')' :: ([' '] ++ '(' :: (" Lib.File = window.Lib ".toList ++
      (('|' :: '|' :: ([' '] ++ '\x7b' :: ([] ++ '\x7d' :: [' ']))) ++
        ')' :: ([' '] ++ ([';'] ++ ['\n'])))))) := by
    decide
  have hblank : AllBlank [' '] := List.all_eq_true.mp (by decide)
  have hbreak : AllBlank ['\n'] := List.all_eq_true.mp (by decide)
  have hargs : ∀ x ∈ " Lib.File = window.Lib ".toList, argument.contains x = true :=
    List.all_eq_true.mp (by decide)
  rw [htext]
  exact .outside hblank hblank hargs (.present hblank allBlank_nil hblank)
    (.intro hblank (.inr rfl) hbreak)

end Samples

theorem wrapper_taken_off_sample :
    ImportsEnd (("\n".toList ++ sampleHead) ++ (sampleBody ++ sampleEnd)) sampleEnd ∧
    ExportsEnd (("\n".toList ++ sampleHead) ++ (sampleBody ++ sampleEnd)) sampleEnd ∧
    ∃ middle ending, WrittenCloser .outside [] ending ∧
      applyAll (moduleStatements ++ declarations "Lib" [.plain "File"])
        (("\n".toList ++ sampleHead) ++ (sampleBody ++ sampleEnd)) =
          .ok ("\n".toList ++ (sampleHead ++ (middle ++ ending))) ∧
      (removing wrapperOpener).onlyFirst.apply ("\n".toList ++ (sampleHead ++ (middle ++ ending))) =
        .ok ("\n".toList ++ (middle ++ ending)) ∧
      (replacing Closer.outside.pattern "\n").onlyFirst.apply ("\n".toList ++ (middle ++ ending)) =
        .ok ("\n".toList ++ (middle ++ ['\n'])) := by
  have hline : ("\n".toList ++ sampleHead) ++ (sampleBody ++ sampleEnd) =
      ("\n".toList ++ (sampleHead ++ sampleBody.dropLast)) ++ '\n' :: sampleEnd := by decide
  have himports := importsEnd_of_line hline (List.suffix_refl _) (by decide)
  have hexports : ExportsEnd (("\n".toList ++ sampleHead) ++ (sampleBody ++ sampleEnd)) sampleEnd :=
    exportsEnd_of_positions [13, 45] (by decide +kernel) (by decide +kernel)
  refine ⟨himports, hexports, ?_⟩
  have hnames : ∀ name ∈ [Export.plain "File"].filterMap Export.plain?, Unmarked name.toList ∧
      '\\' ∉ name.toList := by
    intro name hname
    obtain rfl := List.mem_singleton.mp hname
    exact ⟨unmarked_of_all (by decide), by decide⟩
  exact (wrapper_taken_off (List.all_eq_true.mp (by decide)) writtenOpener_sampleHead
    writtenCloser_sampleEnd himports hexports (unmarked_of_all (by decide)) hnames).2

/-- What all rules make of a script. -/
def afterRules (text : String) : Except Failure String := do
  let rules ← (buildRules "Global" [.plain "File"] none text).run.value
  applyRules rules text

/-- A wrapper may come off in part. Its end is not replaced if blanks stand in the default, if it
goes with an import on the same line or if it closes a list of exports; its head is not removed if a
blank stands in its first word. -/
theorem wrapper_halved :
    afterRules
      "(function (exports) \x7b\n\tvar a = 1;\n\x7d)(this.Lib = this.Lib || \x7b \x7d);\n" =
      .ok "\n\tvar a = 1;\n\x7d)(this.Lib = this.Lib || \x7b \x7d);\n" ∧
    afterRules "(function () \x7b import a from './a' \x7d)();" = .ok " " ∧
    afterRules "(function () \x7b export \x7b a \x7d)();" = .ok " )();" ∧
    afterRules "(func tion () \x7b\x7d)();" = .ok "(func tion () \x7b\n" := by
  refine ⟨?_, ?_, ?_, ?_⟩
  · decide +kernel
  · decide +kernel
  · decide +kernel
  · decide +kernel

end Rule

end ScriptModules
