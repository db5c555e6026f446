import ScriptModules.Proofs.Rule.ModuleStatements
import ScriptModules.Proofs.Rule.NamespaceFree
import ScriptModules.Proofs.Rule.WrapperText

/-!
# Rules that leave a wrapper in place

Between the marks of a wrapper stands little: blanks and single words, but for its argument. A rule
whose matches hold no mark can change such a text only in the argument, if each of its matches holds
more than a single word. Exported declarations, assignments to members of the namespace and
declarations in a chain are of that kind, so the rules for them leave a wrapper a wrapper.
-/

namespace ScriptModules

open Pattern Pattern.Node Text Statement

namespace Rule

/-- The marks of a wrapper. -/
def marks : List Char := ['(', ')', '\x7b', '\x7d', '|']

/-- The text holds no mark of a wrapper. -/
abbrev Unmarked (s : List Char) : Prop := ∀ x ∈ s, x ∉ marks

/-- The text holds at most one word, without an equals sign, between blanks. -/
def Quiet (s : List Char) : Prop :=
  ∃ b w b', AllBlank b ∧ (∀ x ∈ w, isBlank x = false ∧ x ≠ '=') ∧ AllBlank b' ∧ s = b ++ (w ++ b')

/-- What stands between the marks of the text is quiet. -/
def Settled (s : List Char) : Prop := ∀ t, t <:+: s → Unmarked t → Quiet t

section Between

variable {s t r : List Char} {z : Char}

/-- Of two cuts of a text, one stands at the first mark and the other one at it or before. -/
theorem eq_or_exists_of_append {p next : List Char} {y : Char} (h : s ++ z :: r = p ++ y :: next)
    (hz : z ∉ p) :
    (s = p ∧ y = z) ∨ ∃ u, s = p ++ y :: u := by
  rcases List.append_eq_append_iff.mp h with ⟨u, hu, hrest⟩ | ⟨u, hu, hrest⟩
  · cases u with
    | nil => exact .inl ⟨by simpa using hu.symm, (List.cons.inj hrest).1.symm⟩
    | cons v u =>
        obtain rfl : z = v := (List.cons.inj hrest).1
        exact absurd (by rw [hu]; simp) hz
  · cases u with
    | nil => exact .inl ⟨by simpa using hu, (List.cons.inj hrest).1⟩
    | cons v u =>
        obtain rfl : y = v := (List.cons.inj hrest).1
        exact .inr ⟨u, hu⟩

theorem unmarked_of_allBlank (hs : AllBlank s) : Unmarked s := by
  have hsolid : marks.all (fun x => !isBlank x) = true := by decide
  intro x hx hmark
  simpa [hs x hx] using List.all_eq_true.mp hsolid x hmark

theorem unmarked_of_ident (hs : ∀ x ∈ s, isIdent x = true) : Unmarked s := by
  have hnone : marks.all (fun x => !isIdent x) = true := by decide
  intro x hx hmark
  simpa [hs x hx] using List.all_eq_true.mp hnone x hmark

theorem unmarked_of_all (hs : s.all (fun x => !marks.contains x) = true) : Unmarked s := by
  intro x hx
  simpa using List.all_eq_true.mp hs x hx

theorem unmarked_append (hs : Unmarked s) (ht : Unmarked t) : Unmarked (s ++ t) := by
  intro x hx
  rcases List.mem_append.mp hx with hx | hx
  · exact hs x hx
  · exact ht x hx

/-- Two texts that end in the same way have the same last character before their blanks. -/
theorem eq_of_append_of_allBlank {a a' b b' : List Char} {x y : Char} (hb : AllBlank b)
    (hb' : AllBlank b') (hx : isBlank x = false) (hy : isBlank y = false)
    (h : a ++ x :: b = a' ++ y :: b') : x = y := by
  have hreverse : b.reverse ++ x :: a.reverse = b'.reverse ++ y :: a'.reverse := by
    simpa using congrArg List.reverse h
  exact (eq_of_append_of_ends (fun z hz => hb z (List.mem_reverse.mp hz))
    (fun z hz => hb' z (List.mem_reverse.mp hz)) hx hy hreverse).2.1

theorem quiet_of_allBlank (hs : AllBlank s) : Quiet s :=
  ⟨s, [], [], hs, by simp, allBlank_nil, by simp⟩

/-- A name between blanks is quiet. -/
theorem quiet_name {b name b' : List Char} (hb : AllBlank b) (hname : ∀ x ∈ name, isIdent x = true)
    (hb' : AllBlank b') : Quiet (b ++ (name ++ b')) := by
  refine ⟨b, name, b', hb, fun x hx => ⟨isBlank_of_isIdent (hname x hx), ?_⟩, hb', rfl⟩
  rintro rfl
  exact absurd (hname _ hx) (by decide)

theorem WrittenTail.quiet (h : WrittenTail t) : Quiet t := by
  cases h with
  | @intro b stop b' hb hstop hb' =>
      refine ⟨b, stop, b', hb, ?_, hb', rfl⟩
      rcases hstop with rfl | rfl
      · simp
      · simp [isBlank]

theorem Quiet.not_mem (h : Quiet s) : '=' ∉ s := by
  obtain ⟨b, w, b', hb, hw, hb', rfl⟩ := h
  have hblank : isBlank '=' = false := by decide
  have hword : '=' ∉ w := fun hmem => (hw _ hmem).2 rfl
  simp [not_mem_of_allBlank hb hblank, hword, not_mem_of_allBlank hb' hblank]

/-- A quiet text has nothing but blanks on one side of a blank. -/
theorem Quiet.blank_or (h : Quiet (s ++ z :: t)) (hz : isBlank z = true) :
    AllBlank s ∨ AllBlank t := by
  obtain ⟨b, w, b', hb, hw, hb', heq⟩ := h
  have hlast : ∀ {u v : List Char}, AllBlank (u ++ z :: v) → AllBlank v := fun hall x hx =>
    hall x (by simp [hx])
  rcases List.append_eq_append_iff.mp heq with ⟨u, rfl, hu⟩ | ⟨u, rfl, hu⟩
  · left
    intro x hx
    exact hb x (by simp [hx])
  · right
    rcases List.append_eq_append_iff.mp hu with ⟨v, rfl, hv⟩ | ⟨v, rfl, hv⟩
    · exact hlast (hv ▸ hb')
    · cases v with
      | nil => exact hlast (u := []) (by rwa [List.nil_append, hv])
      | cons y v =>
          obtain ⟨rfl, -⟩ := List.cons.inj hv
          rw [(hw z (by simp)).1] at hz
          cases hz

/-- A part of a quiet text is quiet. -/
theorem Quiet.part (h : Quiet s) (ht : t <:+: s) : Quiet t := by
  obtain ⟨b, w, b', hb, hw, hb', rfl⟩ := h
  obtain ⟨u, hpre, hsuf⟩ := List.infix_iff_prefix_suffix.mp ht
  rw [List.suffix_iff_eq_drop.mp hsuf, List.drop_append, List.drop_append] at hpre
  rw [List.prefix_iff_eq_take.mp hpre, List.take_append, List.take_append]
  refine ⟨_, _, _, fun x hx => hb x ?_, fun x hx => hw x ?_, fun x hx => hb' x ?_, rfl⟩
  · exact List.mem_of_mem_drop (List.mem_of_mem_take hx)
  · exact List.mem_of_mem_drop (List.mem_of_mem_take hx)
  · exact List.mem_of_mem_drop (List.mem_of_mem_take hx)

theorem Quiet.settled (h : Quiet s) : Settled s := fun _ ht _ => h.part ht

theorem Settled.part (h : Settled s) (ht : t <:+: s) : Settled t := fun u hu => h u (hu.trans ht)

/-- Texts that are settled may be joined by a mark. -/
theorem Settled.join (hs : Settled s) (hz : z ∈ marks) (ht : Settled t) :
    Settled (s ++ z :: t) := by
  intro u hu hunmarked
  rcases infix_or_of_not_mem hu fun hmem => hunmarked z hmem hz with h | h
  · exact hs u h hunmarked
  · exact ht u h hunmarked

theorem settled_cons (hz : z ∈ marks) (ht : Settled t) : Settled (z :: t) :=
  (quiet_of_allBlank allBlank_nil).settled.join hz ht

end Between

section Written

variable {k : Closer} {lead opener inner closing default : List Char}

theorem WrittenDefault.settled (h : WrittenDefault inner default) {tail : List Char}
    (htail : WrittenTail tail) :
    Settled (default ++ ')' :: tail) := by
  have hend := htail.quiet.settled
  cases h with
  | absent => exact settled_cons (by decide) hend
  | present hb hinner hb' =>
      have hbraces := (quiet_of_allBlank hinner).settled.join (by decide : '\x7d' ∈ marks)
        ((quiet_of_allBlank hb').settled.join (by decide : ')' ∈ marks) hend)
      have hall := (quiet_of_allBlank hb).settled.join (by decide : '\x7b' ∈ marks) hbraces
      simpa using settled_cons (by decide : '|' ∈ marks)
        (settled_cons (by decide : '|' ∈ marks) hall)

theorem WrittenCloser.settled_inside (h : WrittenCloser .inside inner closing) :
    Settled closing := by
  cases h with
  | inside h₁ h₂ hname h₃ h₄ htail =>
      have hend := (quiet_of_allBlank h₄).settled.join (by decide : ')' ∈ marks) htail.quiet.settled
      have hcall := (quiet_name h₂ hname h₃).settled.join (by decide : ')' ∈ marks) hend
      simpa using settled_cons (by decide : '\x7d' ∈ marks)
        ((quiet_of_allBlank h₁).settled.join (by decide : '(' ∈ marks) hcall)

/-- The head of a wrapper ends with a parenthesis and a brace, and it holds no marks but parentheses
before. -/
theorem WrittenOpener.exists_front (hlead : AllBlank lead) (h : WrittenOpener opener) :
    ∃ s b, AllBlank b ∧ lead ++ opener = (s ++ ')' :: b) ++ ['\x7b'] ∧ Settled (s ++ ')' :: b) ∧
      ∀ x ∈ s, x ∈ marks → x = '(' ∨ x = ')' := by
  cases h with
  | @intro b₁ b₂ b₃ name b₄ b₅ h₁ h₂ h₃ hname h₄ h₅ =>
      have hletters : ∀ x ∈ "function".toList, isIdent x = true := List.all_eq_true.mp (by decide)
      have hparameter := (quiet_name h₃ hname h₄).settled.join (by decide : ')' ∈ marks)
        (quiet_of_allBlank h₅).settled
      have hfunction :=
        (quiet_name h₁ hletters h₂).settled.join (by decide : '(' ∈ marks) hparameter
      have hall := (quiet_of_allBlank hlead).settled.join (by decide : '(' ∈ marks) hfunction
      refine ⟨lead ++ '(' :: (b₁ ++ ("function".toList ++ (b₂ ++ '(' :: (b₃ ++ (name ++ b₄))))), b₅,
        h₅, by simp,
        by simpa using hall, ?_⟩
      intro x hx hmark
      simp only [List.mem_append, List.mem_cons] at hx
      rcases hx with hx | rfl | hx | hx | hx | rfl | hx | hx | hx
      · exact absurd hmark (unmarked_of_allBlank hlead x hx)
      · exact .inl rfl
      · exact absurd hmark (unmarked_of_allBlank h₁ x hx)
      · exact absurd hmark (unmarked_of_ident hletters x hx)
      · exact absurd hmark (unmarked_of_allBlank h₂ x hx)
      · exact .inl rfl
      · exact absurd hmark (unmarked_of_allBlank h₃ x hx)
      · exact absurd hmark (unmarked_of_ident hname x hx)
      · exact absurd hmark (unmarked_of_allBlank h₄ x hx)

/-- No word in the head of a wrapper is followed by another one, by a brace or by anything else but
a parenthesis. -/
theorem WrittenOpener.not_heading {a b w blank rest next : List Char} {y : Char}
    (hlead : AllBlank lead) (h : WrittenOpener opener) (hfront : lead ++ opener = a ++ b)
    (hb : b ≠ []) (hafter : b ++ rest = w ++ (blank ++ y :: next))
    (hw : w ≠ [] ∧ ∀ x ∈ w, isWord x = true) (hblank : AllBlank blank)
    (hy : isBlank y = false ∧ y ≠ '(' ∧ y ≠ ')') (hgap : blank ≠ [] ∨ y = '\x7b') : False := by
  obtain ⟨s, b₅, hb₅, hsplit, hsettled, hparens⟩ := h.exists_front hlead
  obtain ⟨b, z, rfl⟩ := (List.eq_nil_or_concat' b).resolve_left hb
  rw [hsplit, ← List.append_assoc] at hfront
  obtain ⟨hbody, hz⟩ := List.append_inj' hfront rfl
  obtain rfl : '\x7b' = z := by simpa using hz
  have hident : ∀ x ∈ w, isIdent x = true := fun x hx => by simp [isIdent, hw.2 x hx]
  have hfree : Unmarked (w ++ blank) :=
    unmarked_append (unmarked_of_ident hident) (unmarked_of_allBlank hblank)
  have heq : b ++ '\x7b' :: rest = (w ++ blank) ++ y :: next := by simpa using hafter
  obtain ⟨x, hx⟩ := List.exists_mem_of_ne_nil w hw.1
  -- the brace comes right after the blanks, or the word is followed by something before it
  obtain ⟨rfl, rfl⟩ | ⟨u, rfl⟩ := eq_or_exists_of_append heq fun hmem => hfree _ hmem (by decide)
  · obtain ⟨w', v, rfl⟩ := (List.eq_nil_or_concat' w).resolve_left hw.1
    have hv := hident v (by simp)
    have hends : s ++ ')' :: b₅ = (a ++ w') ++ v :: blank := by rw [hbody]; simp
    rw [← eq_of_append_of_allBlank hb₅ hblank (by decide) (isBlank_of_isIdent hv) hends] at hv
    exact absurd hv (by decide)
  · have hmem : y ∈ s ++ ')' :: b₅ := by rw [hbody]; simp
    have hother : y ∉ marks := by
      intro hmark
      rcases List.mem_append.mp hmem with hs | hs
      · exact (hparens y hs hmark).elim hy.2.1 hy.2.2
      · rcases List.mem_cons.mp hs with rfl | hs
        · exact hy.2.2 rfl
        · exact unmarked_of_allBlank hb₅ y hs hmark
    obtain ⟨v, blank, rfl⟩ :=
      List.exists_cons_of_ne_nil (hgap.resolve_right fun h => hother (h ▸ by decide))
    have hquiet : Quiet (w ++ v :: (blank ++ [y])) := by
      refine hsettled _ ⟨a, u, by rw [hbody]; simp⟩ ?_
      rw [← List.cons_append, ← List.append_assoc]
      exact unmarked_append hfree fun z hz => by rwa [List.mem_singleton.mp hz]
    rcases hquiet.blank_or (hblank v (by simp)) with hall | hall
    · have hsolid := isBlank_of_isIdent (hident x hx)
      rw [hall x hx] at hsolid
      cases hsolid
    · rw [hall y (by simp)] at hy
      cases hy.1

end Written

/-- A pattern whose matches hold no mark, but two words or an equals sign. What takes the place of a
match in an argument may stand there too. -/
structure Markless (n : Node) (f : Match → List Char) : Prop where
  advances : n.Advances
  reads : ∀ {c m}, n.matchAt false c = some m → ∃ t, c.Leads m.last t ∧ Unmarked t ∧ ¬Quiet t ∧
    ((∀ x ∈ t, argument.contains x = true) → ∀ x ∈ f m, argument.contains x = true)

section Replacing

variable {n : Node} {f : Match → List Char} {c : Cursor} {s rest : List Char} {k : Closer}
  {inner closing : List Char}

/-- No match reaches over a mark. -/
theorem Markless.prefix_of_matchAt (hn : Markless n f) {m : Match} (hm : n.matchAt false c = some m)
    (hrest : ∀ x ∈ rest.head?, x ∈ marks) (hc : c.after = s ++ rest) :
    ∃ t u, s = t ++ u ∧ m.last.after = u ++ rest ∧ Unmarked t ∧ ¬Quiet t := by
  obtain ⟨t, ht, hfree, hloud, -⟩ := hn.reads hm
  have hpre : t <+: s ++ rest := ⟨_, by rw [← hc, ← ht.after]⟩
  obtain ⟨u, rfl⟩ : t <+: s := by
    cases rest with
    | nil => simpa using hpre
    | cons z rest => exact prefix_of_not_mem hpre fun hz => hfree z hz (hrest z rfl)
  refine ⟨t, u, rfl, ?_, hfree, hloud⟩
  rw [ht.after, List.append_assoc] at hc
  exact List.append_cancel_left hc

theorem Markless.matchAt_eq_none (hn : Markless n f) (hs : Settled s)
    (hrest : ∀ x ∈ rest.head?, x ∈ marks) (hc : c.after = s ++ rest) :
    n.matchAt false c = none := by
  rw [Option.eq_none_iff_forall_not_mem]
  intro m hm
  obtain ⟨t, u, rfl, -, hfree, hloud⟩ := hn.prefix_of_matchAt hm hrest hc
  exact hloud (hs t (List.prefix_append t u).isInfix hfree)

/-- Settled text before a mark or the end stays as it is. -/
theorem Markless.replacedAt_settled (hn : Markless n f) (hs : Settled s)
    (hrest : ∀ x ∈ rest.head?, x ∈ marks) (hc : c.after = s ++ rest) :
    n.replacedAt f c = s ++ n.replacedAt f (c.beyond s) := by
  refine replacedAt_skips hn.advances hc fun a x b hab => ?_
  apply hn.matchAt_eq_none (s := x :: b) (hs.part ⟨a, [], by rw [hab, List.append_nil]⟩) hrest
  apply Cursor.after_beyond
  rw [hc, hab, List.append_assoc]

theorem Markless.replacedAt_eq_after (hn : Markless n f) (hs : Settled c.after) :
    n.replacedAt f c = c.after := by
  refine Node.replacedAt_eq_after hn.advances fun a b hab => ?_
  have hafter : (c.beyond a).after = b ++ [] := by rw [Cursor.after_beyond hab, List.append_nil]
  exact hn.matchAt_eq_none (hs.part ⟨a, [], by rw [hab, List.append_nil]⟩) (by simp) hafter

theorem Markless.replacedAt_mark (hn : Markless n f) {z : Char} (hz : z ∈ marks)
    (hc : c.after = z :: rest) :
    n.replacedAt f c = z :: n.replacedAt f (c.beyond [z]) := by
  refine replacedAt_skipped hn.advances (hn.matchAt_eq_none (s := []) ?_ ?_ hc) hc
  · exact (quiet_of_allBlank allBlank_nil).settled
  · simpa using hz

theorem Markless.length_le (hn : Markless n f) {m : Match} (hm : n.matchAt false c = some m)
    (hrest : ∀ x ∈ rest.head?, x ∈ marks) (hc : c.after = s ++ rest) :
    rest.length ≤ m.last.after.length := by
  obtain ⟨t, u, -, hlast, -⟩ := hn.prefix_of_matchAt hm hrest hc
  simp [hlast]

/-- What takes the place of an argument may be an argument too. -/
theorem Markless.exists_argument (hn : Markless n f) (hs : ∀ x ∈ s, argument.contains x = true)
    (hrest : ∀ x ∈ rest.head?, x ∈ marks) (hc : c.after = s ++ rest) :
    ∃ out, n.replacedAt f c = out ++ n.replacedAt f (c.beyond s) ∧
      ∀ x ∈ out, argument.contains x = true := by
  refine exists_replacedAt_append hn.advances hc (fun {e m a b} hlead hab _ hm => ?_) hs
    fun {e m t} hm ht hin => ?_
  · have hafter : a ++ e.after = a ++ (b ++ rest) := by
      rw [← hlead.after, hc, hab, List.append_assoc]
    exact hn.length_le hm hrest (List.append_cancel_left hafter)
  · obtain ⟨t', ht', -, -, hback⟩ := hn.reads hm
    obtain rfl : t' = t := List.append_cancel_right (ht'.after.symm.trans ht.after)
    exact hback hin

/-- The end of a wrapper is changed in its argument only. -/
theorem Markless.closer (hn : Markless n f) (h : WrittenCloser k inner c.after) :
    WrittenCloser k inner (n.replacedAt f c) := by
  cases k with
  | inside =>
      rw [hn.replacedAt_eq_after h.settled_inside]
      exact h
  | outside =>
      generalize hc : c.after = closing at h
      cases h with
      | @outside b₁ b₂ args _ default tail h₁ h₂ hargs hdefault htail =>
          have hsplit : c.after = ('\x7d' :: (b₁ ++ ')' :: b₂)) ++
              '(' :: (args ++ (default ++ ')' :: tail)) := by
            rw [hc]
            simp
          have hfirst : Settled ('\x7d' :: (b₁ ++ ')' :: b₂)) := settled_cons (by decide)
            ((quiet_of_allBlank h₁).settled.join (by decide) (quiet_of_allBlank h₂).settled)
          have hcall := Cursor.after_beyond hsplit
          have hopen := Cursor.after_beyond (s := ['(']) hcall
          have hend : ∀ x ∈ (default ++ ')' :: tail).head?, x ∈ marks := by
            cases hdefault with
            | absent => simp [marks]
            | present => simp [marks]
          obtain ⟨out, hout, hall⟩ := hn.exists_argument hargs hend hopen
          have hlast := Cursor.after_beyond hopen
          have hsettled := hdefault.settled htail
          rw [← hlast] at hsettled
          rw [hn.replacedAt_settled hfirst (by simp [marks]) hsplit,
            hn.replacedAt_mark (by decide) hcall, hout, hn.replacedAt_eq_after hsettled, hlast]
          simpa using WrittenCloser.outside h₁ h₂ hall hdefault htail

end Replacing

section Members

variable {c : Cursor} {m : Match} {namespaceName name : String}

/-- A rule for exported declarations matches two words and leaves one of them. -/
theorem markless_exported {k : Node} {f : Match → List Char} {words : List String}
    (hk : ReadsKeyword k f words) :
    Markless (exported k) f where
  advances := (strips_exported hk).advances
  reads {c m} hm := by
    obtain ⟨c₁, hedge, h⟩ := mem_ways_seq.mp (matchAt_sound hm).2
    obtain ⟨-, rfl⟩ := mem_ways_anchor.mp hedge
    obtain ⟨c₂, hword, h⟩ := mem_ways_seq.mp h
    obtain ⟨c₃, hspace, h⟩ := mem_ways_seq.mp h
    obtain ⟨c₄, hkeyword, h⟩ := mem_ways_seq.mp h
    obtain ⟨-, rfl⟩ := mem_ways_anchor.mp h
    obtain ⟨w, hw, hlead, hf⟩ := hk.sound hkeyword
    obtain ⟨t, ht⟩ := exists_leads_of_matchAt hm
    have htext : t ++ m.last.after = ("export".toList ++ ' ' :: w.toList) ++ m.last.after := by
      rw [← ht.after, ← Cursor.after_fresh, (passes_word hword).1, (passes_char hspace).1,
        hlead.after]
      simp
    obtain rfl := List.append_cancel_right htext
    obtain ⟨hne, hletters⟩ := word_of_mem_keywords (hk.subset hw)
    have hident : ∀ x ∈ w.toList, isIdent x = true := fun x hx => by simp [isIdent, hletters x hx]
    refine ⟨_, ht, ?_, ?_, ?_⟩
    · have hexport : Unmarked ("export".toList ++ [' ']) := unmarked_of_all (by decide)
      simpa using unmarked_append hexport (unmarked_of_ident hident)
    · intro hquiet
      rcases hquiet.blank_or (by decide) with hall | hall
      · exact absurd (hall 'e' (by decide)) (by decide)
      · obtain ⟨x, hx⟩ := List.exists_mem_of_ne_nil _ hne
        exact not_mem_of_allBlank hall (isBlank_of_isIdent (hident x hx)) hx
    · intro hin x hx
      rw [show f m = w.toList from hf m.first] at hx
      exact hin x (by simp [hx])

/-- A rule for the assignments to a member matches an equals sign after the name, and writes
both. -/
theorem markless_assignment (hnamespace : Unmarked namespaceName.toList)
    (hname : Unmarked name.toList) :
    Markless (assignment namespaceName name) fun _ => ("var " ++ name ++ " =").toList where
  advances := advances_seq_left (advances_member namespaceName)
  reads {c m} hm := by
    obtain ⟨c₁, hmember, h⟩ := mem_ways_seq.mp (matchAt_sound hm).2
    obtain ⟨-, hstart, rfl⟩ := mem_ways_member.mp hmember
    obtain ⟨c₂, hword, h⟩ := mem_ways_seq.mp h
    obtain ⟨c₃, hblanks, h⟩ := mem_ways_seq.mp h
    obtain ⟨c₄, hequals, h⟩ := mem_ways_seq.mp h
    obtain ⟨blank, hblank, hafter, -⟩ := passes_blanks hblanks
    have hlast : c₄.after = m.last.after := by
      rcases eq_of_mem_ways_look h with hsame | ⟨o, e, -, -, hsame⟩
      · rw [hsame]
      · rw [hsame]
    obtain ⟨t, ht⟩ := exists_leads_of_matchAt hm
    have htext : t ++ m.last.after =
        ((namespaceName.toList ++ ['.']) ++ (name.toList ++ (blank ++ ['=']))) ++ m.last.after := by
      rw [← ht.after, ← Cursor.after_fresh, (Cursor.leads_beyond hstart).after,
        (passes_word hword).1, hafter, (passes_char hequals).1, hlast]
      simp
    obtain rfl := List.append_cancel_right htext
    refine ⟨_, ht, ?_, ?_, ?_⟩
    · have hdot : Unmarked ['.'] := unmarked_of_all (by decide)
      have hequals : Unmarked ['='] := unmarked_of_all (by decide)
      exact unmarked_append (unmarked_append hnamespace hdot)
        (unmarked_append hname (unmarked_append (unmarked_of_allBlank hblank) hequals))
    · intro hquiet
      exact hquiet.not_mem (by simp)
    · intro hin x hx
      have hvar : ∀ x ∈ "var ".toList ++ " =".toList, argument.contains x = true :=
        List.all_eq_true.mp (by decide)
      simp only [String.toList_append, List.mem_append] at hx
      rcases hx with (hx | hx) | hx
      · exact hvar x (List.mem_append_left _ hx)
      · exact hin x (by simp [hx])
      · exact hvar x (List.mem_append_right _ hx)

/-- The rule for declarations in a chain matches an equals sign and leaves it. -/
theorem markless_chain : Markless (word " = var ") fun _ => " = ".toList where
  advances := advances_word (by decide)
  reads {c m} hm := by
    obtain ⟨t, ht⟩ := exists_leads_of_matchAt hm
    have htext : t ++ m.last.after = " = var ".toList ++ m.last.after := by
      rw [← ht.after, ← Cursor.after_fresh, (passes_word (matchAt_sound hm).2).1]
    obtain rfl := List.append_cancel_right htext
    refine ⟨_, ht, unmarked_of_all (by decide), ?_, ?_⟩
    · intro hquiet
      exact hquiet.not_mem (by decide)
    · intro _
      exact List.all_eq_true.mp (by decide)

/-- A name without a backslash is written as it stands. -/
theorem rule_assignment (h : '\\' ∉ name.toList) :
    (⟨assignment namespaceName name, declaring name, 0⟩ : Rule) =
      replacing (assignment namespaceName name) ("var " ++ name ++ " =") := by
  have htemplate : declaring name = .ok (.verbatim ("var " ++ name ++ " =")) := by
    have hplain : ("var " ++ name ++ " =").toList.contains '\\' = false := by simp [h]
    rw [declaring, Template.parse, hplain]
    rfl
  rw [replacing, htemplate]

end Members

/-- No match of the pattern starts in the head of the wrapper, and none reaches into its end. -/
structure Spares (n : Node) (front middle ending : List Char) : Prop where
  head : ∀ a x b, front = a ++ x :: b →
    n.matchAt false ((Cursor.start (front ++ (middle ++ ending))).beyond a) = none
  body : ∀ {e m a b}, ((Cursor.start (front ++ (middle ++ ending))).beyond front).Leads e a →
    middle = a ++ b → b ≠ [] →
    n.matchAt false e = some m → ending.length ≤ m.last.after.length

/-- The text has the given head and ends as a wrapper does. -/
def Wrapped (front : List Char) (k : Closer) (inner text : List Char) : Prop :=
  ∃ middle ending, WrittenCloser k inner ending ∧ text = front ++ (middle ++ ending)

section Sparing

variable {n : Node} {f : Match → List Char} {lead opener front middle ending inner : List Char}
  {k : Closer}

/-- The end of the outcome comes from the end of the text. -/
theorem Spares.exists_replace_eq (h : Spares n front middle ending) (hn : n.Advances)
    (f : Match → List Char) :
    ∃ middle', n.replace none f (front ++ (middle ++ ending)) = front ++ (middle' ++
      n.replacedAt f ((Cursor.start (front ++ (middle ++ ending))).beyond (front ++ middle))) := by
  have hc : (Cursor.start (front ++ (middle ++ ending))).after = front ++ (middle ++ ending) := rfl
  obtain ⟨middle', hmiddle, -⟩ :=
    exists_replacedAt_append (f := f) (p := fun _ => True) hn (Cursor.after_beyond hc)
    h.body (by simp) (by simp)
  refine ⟨middle', ?_⟩
  rw [replace_eq_replacedAt hn, replacedAt_skips hn hc h.head, hmiddle, Cursor.beyond_beyond]

theorem after_of_leads {e : Cursor} {a b : List Char}
    (h : ((Cursor.start (front ++ (middle ++ ending))).beyond front).Leads e a)
    (hab : middle = a ++ b) :
    e.after = b ++ ending := by
  have hc : (Cursor.start (front ++ (middle ++ ending))).after = front ++ (middle ++ ending) := rfl
  have hafter : a ++ e.after = a ++ (b ++ ending) := by
    rw [← h.after, Cursor.after_beyond hc, hab, List.append_assoc]
  exact List.append_cancel_left hafter

theorem Markless.spares (hn : Markless n f) (hlead : AllBlank lead) (hopener : WrittenOpener opener)
    (hcloser : WrittenCloser k inner ending) : Spares n (lead ++ opener) middle ending where
  head a x b hab := by
    obtain ⟨s, b₅, -, hfront, hsettled, -⟩ := hopener.exists_front hlead
    obtain ⟨b', z, hb'⟩ := (List.eq_nil_or_concat' (x :: b)).resolve_left (by simp)
    rw [hfront, hb', ← List.append_assoc] at hab
    obtain ⟨hbody, hz⟩ := List.append_inj' hab rfl
    obtain rfl : '\x7b' = z := by simpa using hz
    have hc : (Cursor.start ((lead ++ opener) ++ (middle ++ ending))).after =
        a ++ (b' ++ '\x7b' :: (middle ++ ending)) := by
      simp [Cursor.start, hfront, hbody]
    refine hn.matchAt_eq_none ?_ (by simp [marks]) (Cursor.after_beyond hc)
    exact hsettled.part ⟨a, [], by rw [hbody, List.append_nil]⟩
  body {e m a b} hlead' hab _ hm := by
    refine hn.length_le hm ?_ (after_of_leads hlead' hab)
    obtain ⟨call, after, rfl, -⟩ := hcloser.exists_call
    simp [marks]

/-- A rule of that kind leaves a wrapper in place. -/
theorem Markless.wrapped (hn : Markless n f) (hlead : AllBlank lead)
    (hopener : WrittenOpener opener) {text : List Char}
    (h : Wrapped (lead ++ opener) k inner text) :
    Wrapped (lead ++ opener) k inner (n.replace none f text) := by
  obtain ⟨middle, ending, hcloser, rfl⟩ := h
  obtain ⟨middle', hmiddle⟩ := (hn.spares hlead hopener hcloser).exists_replace_eq hn.advances f
  refine ⟨middle', _, hn.closer ?_, hmiddle⟩
  have hc : (Cursor.start ((lead ++ opener) ++ (middle ++ ending))).after =
      ((lead ++ opener) ++ middle) ++ ending := by
    simp [Cursor.start]
  rwa [Cursor.after_beyond hc]

end Sparing

end Rule

end ScriptModules
