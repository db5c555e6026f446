import ScriptModules.Proofs.Pattern.Groups

/-!
# Replacing in parts of a text

A text may be cut at a place that no match reaches over: what takes the place of the first part does
then not depend on how the second part is replaced. Where only the first match is replaced, all that
stands around it stays as it is. A match is found wherever no earlier match reaches over the place
at which it starts.
-/

namespace ScriptModules.Pattern

theorem Cursor.Leads.fresh_eq {c d : Cursor} {s : List Char} (h : c.Leads d s) :
    d.fresh = (c.beyond s).fresh := by
  have hafter : (c.beyond s).after = d.after := Cursor.after_beyond h.after
  simp [Cursor.fresh, Cursor.beyond, h.before, h.pos, h.after]

/-- The text of a match stands between its ends. -/
theorem Match.group_zero_of_leads {m : Match} {s : List Char} (h : m.first.Leads m.last s) :
    m.group 0 = s := by
  simp [group, group?, Match.text, h.pos, h.after]

namespace Node

variable {n : Node} {f : Match → List Char} {c d : Cursor} {s rest text : List Char}

theorem matchAt_congr (h : c.fresh = d.fresh) : n.matchAt false c = n.matchAt false d := by
  rw [matchAt_eq_head?, matchAt_eq_head?, h]

/-- What was captured before does not matter. -/
theorem replacedAt_congr (hn : n.Advances) (h : c.fresh = d.fresh) :
    n.replacedAt f c = n.replacedAt f d := by
  induction c using scan_induction hn generalizing d with
  | found c m hm _ =>
      have hm' : n.matchAt false d = some m := (matchAt_congr h).symm.trans hm
      exact (replacedAt_found hn hm).trans (replacedAt_found hn hm').symm
  | skipped c x rest hm hx ih =>
      have hm' : n.matchAt false d = none := (matchAt_congr h).symm.trans hm
      have hx' : d.after = x :: rest := (congrArg Cursor.after h).symm.trans hx
      have hnext : (c.beyond [x]).fresh = (d.beyond [x]).fresh := congrArg (·.beyond [x]) h
      rw [replacedAt_skipped hn hm hx, ih hnext]
      exact (replacedAt_skipped hn hm' hx').symm
  | finished c hm hx =>
      have hm' : n.matchAt false d = none := (matchAt_congr h).symm.trans hm
      have hx' : d.after = [] := (congrArg Cursor.after h).symm.trans hx
      exact (replacedAt_finished hm hx).trans (replacedAt_finished hm' hx').symm

/-- What follows a cursor stays as it is if no match starts in it. -/
theorem replacedAt_eq_after (hn : n.Advances)
    (h : ∀ a b, c.after = a ++ b → n.matchAt false (c.beyond a) = none) :
    n.replacedAt f c = c.after := by
  have hc : c.after = c.after ++ [] := (List.append_nil _).symm
  rw [replacedAt_skips hn hc fun a x b hab => h a _ hab,
    replacedAt_finished (h _ _ hc) (Cursor.after_beyond hc), List.append_nil]

theorem length_removedAt_le (hn : n.Advances) (c : Cursor) :
    (n.replacedAt (fun _ => []) c).length ≤ c.after.length := by
  induction c using scan_induction hn with
  | found c m hm ih =>
      rw [replacedAt_found hn hm, List.nil_append]
      exact ih.trans (Nat.le_of_lt (length_after_lt_of_matchAt hn hm))
  | skipped c x rest hm hx ih =>
      rw [Cursor.after_beyond hx] at ih
      rw [replacedAt_skipped hn hm hx, hx]
      exact Nat.succ_le_succ ih
  | finished c hm hx => simp [replacedAt_finished hm hx]

/-- Removing the matches leaves a text as it is exactly if no match starts in it. -/
theorem remove_eq_self_iff (hn : n.Advances) :
    n.remove text = text ↔ ∀ a b, text = a ++ b →
      n.matchAt false ((Cursor.start text).beyond a) = none := by
  refine ⟨?_, fun h => replace_eq_self hn h⟩
  suffices hat : ∀ c : Cursor, n.replacedAt (fun _ => []) c = c.after →
      ∀ a b, c.after = a ++ b → n.matchAt false (c.beyond a) = none by
    intro h
    rw [remove, replace_eq_replacedAt hn] at h
    exact hat _ h
  intro c
  induction c using scan_induction hn with
  | found c m hm _ =>
      intro h
      -- what is left after a match is shorter than the text
      have hlt := length_after_lt_of_matchAt hn hm
      rw [replacedAt_found hn hm, List.nil_append] at h
      have hle := length_removedAt_le hn m.last
      rw [h] at hle
      omega
  | skipped c x rest hm hx ih =>
      intro h a b hab
      cases a with
      | nil => rwa [Cursor.beyond_nil]
      | cons y a =>
          rw [hx, List.cons_append, List.cons.injEq] at hab
          obtain ⟨rfl, hab⟩ := hab
          have hafter : (c.beyond [x]).after = rest := Cursor.after_beyond hx
          rw [replacedAt_skipped hn hm hx, hx, List.cons.injEq] at h
          simpa using ih (h.2.trans hafter.symm) a b (hafter.trans hab)
  | finished c hm hx =>
      intro _ a b hab
      obtain ⟨rfl, -⟩ := List.append_eq_nil_iff.mp (hab.symm.trans hx)
      rwa [Cursor.beyond_nil]

/-- A text that ends at or before the end of another one is the start of it. -/
theorem exists_append_of_leads {t : List Char} (ht : c.Leads d t) (hc : c.after = s ++ rest)
    (hlength : rest.length ≤ d.after.length) : ∃ s', s = t ++ s' ∧ d.after = s' ++ rest := by
  rcases List.append_eq_append_iff.mp (hc.symm.trans ht.after) with ⟨u, rfl, hu⟩ | ⟨u, rfl, hu⟩
  · rw [hu, List.length_append] at hlength
    obtain rfl : u = [] := List.length_eq_zero_iff.mp (by omega)
    exact ⟨[], by simp, by simpa using hu.symm⟩
  · exact ⟨u, rfl, hu⟩

/-- Text that no match reaches over is replaced on its own. A property of its characters goes over
to what takes its place, if it goes over from every match in it. -/
theorem exists_replacedAt_append (hn : n.Advances) {p : Char → Prop} (hc : c.after = s ++ rest)
    (hstops : ∀ {e m a b}, c.Leads e a → s = a ++ b → b ≠ [] → n.matchAt false e = some m →
      rest.length ≤ m.last.after.length)
    (hs : ∀ x ∈ s, p x)
    (hf : ∀ {e m t}, n.matchAt false e = some m → e.Leads m.last t → (∀ x ∈ t, p x) →
      ∀ x ∈ f m, p x) :
    ∃ out, n.replacedAt f c = out ++ n.replacedAt f (c.beyond s) ∧ ∀ x ∈ out, p x := by
  induction c using scan_induction hn generalizing s with
  | found c m hm ih =>
      by_cases hne : s = []
      · subst hne
        exact ⟨[], by simp, by simp⟩
      obtain ⟨t, ht⟩ := exists_leads_of_matchAt hm
      have hlength := hstops (.refl c) (List.nil_append s).symm hne hm
      -- the match lies in the first part, and the rest of that part comes after it
      obtain ⟨s, rfl, hafter⟩ := exists_append_of_leads ht hc hlength
      have hsame : (m.last.beyond s).fresh = (c.beyond (t ++ s)).fresh := by
        rw [← Cursor.beyond_beyond]
        exact congrArg (·.beyond s) ht.fresh_eq
      obtain ⟨out, hout, hall⟩ := ih hafter
        (fun hlead hab hb hm' => hstops (ht.trans hlead) (by rw [hab, List.append_assoc]) hb hm')
        (fun x hx => hs x (List.mem_append_right _ hx))
      refine ⟨f m ++ out, ?_, ?_⟩
      · rw [replacedAt_found hn hm, hout, replacedAt_congr hn hsame, List.append_assoc]
      · intro x hx
        rcases List.mem_append.mp hx with hx | hx
        · exact hf hm ht (fun y hy => hs y (List.mem_append_left _ hy)) x hx
        · exact hall x hx
  | skipped c x tail hm hx ih =>
      cases s with
      | nil => exact ⟨[], by simp, by simp⟩
      | cons y s =>
          obtain ⟨rfl, rfl⟩ := List.cons.inj (hx.symm.trans hc)
          have hlead : c.Leads (c.beyond [x]) [x] := Cursor.leads_beyond ⟨_, hx.symm⟩
          obtain ⟨out, hout, hall⟩ := ih (Cursor.after_beyond hx)
            (fun hlead' hab hb hm' => hstops (hlead.trans hlead') (by rw [hab]; rfl) hb hm')
            (fun y hy => hs y (List.mem_cons_of_mem _ hy))
          refine ⟨x :: out, ?_, ?_⟩
          · rw [replacedAt_skipped hn hm hx, hout, Cursor.beyond_beyond]
            rfl
          · intro y hy
            rcases List.mem_cons.mp hy with rfl | hy
            · exact hs y (by simp)
            · exact hall y hy
  | finished c hm hx =>
      rw [hx] at hc
      obtain ⟨rfl, -⟩ := List.append_eq_nil_iff.mp hc.symm
      exact ⟨[], by simp, by simp⟩

/-- A match is found if no match that starts before it reaches over its start. -/
theorem mem_matchesAt (hn : n.Advances) {m : Match} (hc : c.after = s ++ rest)
    (hm : n.matchAt false (c.beyond s) = some m)
    (hstops : ∀ {e m' a b}, c.Leads e a → s = a ++ b → b ≠ [] → n.matchAt false e = some m' →
      rest.length ≤ m'.last.after.length) : m ∈ n.matchesAt c := by
  induction c using scan_induction hn generalizing s with
  | found c m' hm' ih =>
      rw [matchesAt_found hn hm']
      by_cases hne : s = []
      · subst hne
        rw [Cursor.beyond_nil, hm'] at hm
        rw [Option.some.inj hm]
        exact List.mem_cons_self
      obtain ⟨t, ht⟩ := exists_leads_of_matchAt hm'
      obtain ⟨s, rfl, hafter⟩ :=
        exists_append_of_leads ht hc (hstops (.refl c) (List.nil_append s).symm hne hm')
      have hsame : (m'.last.beyond s).fresh = (c.beyond (t ++ s)).fresh := by
        rw [← Cursor.beyond_beyond]
        exact congrArg (·.beyond s) ht.fresh_eq
      refine List.mem_cons_of_mem _ (ih hafter ((matchAt_congr hsame).trans hm) ?_)
      intro e m'' a b hlead hab
      exact hstops (ht.trans hlead) (by rw [hab, List.append_assoc])
  | skipped c x tail hnone hx ih =>
      cases s with
      | nil => rw [Cursor.beyond_nil, hnone] at hm; cases hm
      | cons y s =>
          obtain ⟨rfl, rfl⟩ := List.cons.inj (hx.symm.trans hc)
          have hlead : c.Leads (c.beyond [x]) [x] := Cursor.leads_beyond ⟨_, hx.symm⟩
          rw [matchesAt_skipped hn hnone hx]
          refine ih (Cursor.after_beyond hx) (by rwa [Cursor.beyond_beyond]) ?_
          intro e m'' a b hlead' hab
          exact hstops (hlead.trans hlead') (by rw [hab]; rfl)
  | finished c hnone hx =>
      rw [hx] at hc
      obtain ⟨rfl, -⟩ := List.append_eq_nil_iff.mp hc.symm
      rw [Cursor.beyond_nil, hnone] at hm
      cases hm

section Limited

theorem piecesAt_zero (n : Node) (c : Cursor) : n.piecesAt (some 0) c = c.after.map .skipped := by
  rw [piecesAt]
  generalize hsteps : c.after.length + 1 = steps
  induction steps generalizing c with
  | zero => omega
  | succ steps ih =>
      cases hc : c.after with
      | nil => simp [piecesFrom, hc]
      | cons x rest =>
          have hrest := ih (c.past x rest) (by simp [Cursor.past, hc] at hsteps ⊢; omega)
          simp only [piecesFrom, hc, beq_self_eq_true, if_true, List.map_cons,
            List.cons.injEq, true_and]
          rw [hrest]
          rfl

/-- Only the first match is replaced, and what stands around it stays. -/
theorem replace_one {a b : List Char} {m : Match} (hn : n.Advances)
    (hnone : ∀ a' x b', a = a' ++ x :: b' →
      n.matchAt false ((Cursor.start (a ++ (s ++ b))).beyond a') = none)
    (hm : n.matchAt false ((Cursor.start (a ++ (s ++ b))).beyond a) = some m)
    (hb : m.last.after = b) :
    n.replace (some 1) f (a ++ (s ++ b)) = a ++ (f m ++ b) := by
  have hc : (Cursor.start (a ++ (s ++ b))).after = a ++ (s ++ b) := rfl
  rw [replace, pieces_eq_piecesAt hn, piecesAt_skips hn hc hnone, piecesAt_found hn (by simp) hm]
  simp only [Option.map_some, Nat.sub_self, piecesAt_zero, hb]
  simp [List.flatMap_map]

end Limited

/-- A pattern occurs in a text where it has a match at some place. -/
theorem occursIn_iff : n.occursIn text = true ↔
    ∃ a b, text = a ++ b ∧ n.matchAt false ((Cursor.start text).beyond a) ≠ none := by
  suffices hfrom : ∀ c : Cursor, (n.searchFrom c.pos c.before c.after).isSome = true ↔
      ∃ a b, c.after = a ++ b ∧ n.matchAt false (c.beyond a) ≠ none from hfrom (.start text)
  intro c
  generalize hc : c.after = rest
  induction rest generalizing c with
  | nil =>
      have hsame : n.matchAt false ⟨c.pos, c.before, [], []⟩ = n.matchAt false c := by
        apply matchAt_congr
        simp [Cursor.fresh, hc]
      rw [searchFrom, hsame]
      constructor
      · intro h
        exact ⟨[], [], rfl, by simpa [Option.isSome_iff_ne_none] using h⟩
      · rintro ⟨a, b, hab, h⟩
        obtain ⟨rfl, rfl⟩ := List.append_eq_nil_iff.mp hab.symm
        simpa [Option.isSome_iff_ne_none] using h
  | cons x rest ih =>
      have hsame : n.matchAt false ⟨c.pos, c.before, x :: rest, []⟩ = n.matchAt false c := by
        apply matchAt_congr
        simp [Cursor.fresh, hc]
      have hrest := ih (c.beyond [x]) (Cursor.after_beyond hc)
      rw [searchFrom, hsame]
      cases hm : n.matchAt false c with
      | some m => exact iff_of_true rfl ⟨[], x :: rest, rfl, by simp [hm]⟩
      | none =>
          refine hrest.trans ⟨?_, ?_⟩
          · rintro ⟨a, b, rfl, h⟩
            exact ⟨x :: a, b, rfl, by simpa using h⟩
          · rintro ⟨a, b, hab, h⟩
            cases a with
            | nil => exact absurd (by simpa using hm) h
            | cons y a =>
                obtain ⟨rfl, rfl⟩ := List.cons.inj hab
                exact ⟨a, b, rfl, by simpa using h⟩

/-- Where a pattern occurs, it leads on from some place of the text. -/
theorem exists_way_of_occursIn (h : n.occursIn text = true) :
    ∃ c d, d ∈ n.ways c ∧ c.after <:+ text := by
  obtain ⟨a, b, hab, hmatch⟩ := occursIn_iff.mp h
  obtain ⟨d, hd⟩ := List.exists_mem_of_ne_nil _ (mt matchAt_eq_none_iff.mpr hmatch)
  refine ⟨_, d, hd, a, ?_⟩
  rw [Cursor.after_fresh, Cursor.after_beyond hab, hab]

/-- A match at the start of a text is found first. -/
theorem search_of_takes (h : n.Takes (.start text) d) : n.search text = some ⟨.start text, d⟩ := by
  have hm : n.matchAt false (.start text) = some ⟨.start text, d⟩ := Takes.matchAt h
  cases text with
  | nil => exact hm
  | cons x text =>
      rw [search, searchFrom]
      split
      · rename_i m hm'
        exact hm'.symm.trans hm
      · rename_i hnone
        exact absurd (hnone.symm.trans hm) (by simp)

/-- A text that is taken whole is the only match in it. -/
theorem groupTexts_of_takes (hn : n.Advances) (h : n.Takes (.start text) d) (hd : d.after = []) :
    n.groupTexts 0 text = [text] := by
  have hm : n.matchAt false (.start text) = some ⟨.start text, d⟩ := Takes.matchAt h
  have hnone : n.matchAt false d = none := by
    cases hd' : n.matchAt false d with
    | none => rfl
    | some m =>
        have hlength := length_after_lt_of_matchAt hn hd'
        simp [hd] at hlength
  obtain ⟨s, hs⟩ := exists_leads_of_matchAt hm
  have htext : s = text := by simpa [Cursor.start, hd] using hs.after.symm
  rw [groupTexts, allMatches_eq_matchesAt hn, matchesAt_found hn hm, matchesAt_finished hnone hd,
    List.map_singleton, Match.group_zero_of_leads hs, htext]

/-- Removing all runs of blanks leaves the other characters. -/
theorem remove_gap (text : List Char) : gap.remove text = text.filter fun x => !Text.isBlank x := by
  have hn : gap.Advances := by
    intro c d hd
    obtain ⟨t, hne, -, -, rfl⟩ := mem_ways_oneOrMore_set.mp hd
    have hpos := List.length_pos_iff.mpr hne
    simp only [Cursor.beyond]
    omega
  suffices hat : ∀ c : Cursor, gap.replacedAt (fun _ => []) c = c.after.filter fun x =>
      !Text.isBlank x by
    rw [remove, replace_eq_replacedAt hn]
    exact hat _
  intro c
  induction c using scan_induction hn with
  | found c m hm ih =>
      obtain ⟨t, -, hall, hafter⟩ := passes_oneOrMore (matchAt_sound hm).2
      have hblank : t.filter (fun x => !Text.isBlank x) = [] := by
        rw [List.filter_eq_nil_iff]
        intro x hx
        simpa using hall x hx
      rw [replacedAt_found hn hm, ih, ← Cursor.after_fresh c, hafter, List.filter_append, hblank]
  | skipped c x rest hm hx ih =>
      have hsolid : Text.isBlank x = false := by
        rw [← Bool.not_eq_true]
        intro hblank
        refine matchAt_ne_none (d := c.fresh.beyond [x]) ?_ hm
        exact mem_ways_oneOrMore_set.mpr ⟨[x], by simp, ⟨rest, hx.symm⟩, by simpa using hblank, rfl⟩
      rw [replacedAt_skipped hn hm hx, ih, hx, Cursor.after_beyond hx,
        List.filter_cons_of_pos (by simpa using hsolid)]
  | finished c hm hx => rw [replacedAt_finished hm hx, hx, List.filter_nil]

end Node

end ScriptModules.Pattern
