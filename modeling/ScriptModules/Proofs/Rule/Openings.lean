import ScriptModules.Proofs.Rule.ModuleStatements

/-!
# Statements that come about

A rule that removes statements can bring a new one about, from what stood before and after a removed
one. It cannot where no statement starts in what may still become one: an opening, which is the text
of a statement from its first word up to any place. Such text is copied by every rule, so an opening
in the outcome of a rule stands in the text too.
-/

namespace ScriptModules

open Pattern Pattern.Node Text Statement

section Copies

variable {n : Node} {f : Match → List Char} {c : Cursor} {v w : List Char} {p : Char → Bool}

/-- A text of the outcome along which no match starts is copied. -/
theorem prefix_of_replacedAt_of_forall (hn : n.Advances) {u q : List Char}
    (hnone : ∀ a b, u = a ++ b → b ≠ [] → a <+: c.after → n.matchAt false (c.beyond a) = none)
    (h : n.replacedAt f c = u ++ q) : u <+: c.after ∧ q = n.replacedAt f (c.beyond u) := by
  induction u generalizing c with
  | nil => simpa using h.symm
  | cons x u ih =>
      have hfirst : n.matchAt false c = none := by
        simpa using hnone [] (x :: u) rfl (by simp) List.nil_prefix
      cases hc : c.after with
      | nil => simp [replacedAt_finished hfirst hc] at h
      | cons y rest =>
          rw [replacedAt_skipped hn hfirst hc, List.cons_append, List.cons.injEq] at h
          obtain ⟨rfl, h⟩ := h
          have hafter : (c.beyond [y]).after = rest := Cursor.after_beyond hc
          have hrest := @ih (c.beyond [y]) (fun a b hab hb ha => by
            rw [hafter] at ha
            simpa using hnone (y :: a) b (by simp [hab]) hb
              (by rw [hc]; simpa [List.cons_prefix_cons] using ha)) h
          rw [hafter, Cursor.beyond_beyond] at hrest
          exact ⟨by simpa [List.cons_prefix_cons] using hrest.1, hrest.2⟩

/-- The contract of a rule does not depend on the word that its replacements do not hold. -/
theorem Pattern.Node.Severs.of_word {start : List Char → Prop} (hn : n.Severs f start v p)
    (h : ∀ {c m}, n.matchAt false c = some m → ¬w <:+: f m) : n.Severs f start w p where
  advances := hn.advances
  word := hn.word
  starts := hn.starts
  ends {c m} hm := by
    rcases hn.ends hm with ⟨hnext, hempty | ⟨hleft, -⟩⟩ | hremoved
    · exact .inl ⟨hnext, .inl hempty⟩
    · exact .inl ⟨hnext, .inr ⟨hleft, h hm⟩⟩
    · exact .inr hremoved

/-- No match starts where no first word of a statement stands. -/
theorem matchAt_eq_none_of_heads (hn : n.Severs f Starts w p) (h : ∀ v ∈ heads, ¬v <+: c.after) :
    n.matchAt false c = none := by
  apply hn.matchAt_eq_none_of_not_start
  rintro ⟨v, hv, hstart, -⟩
  exact h v hv hstart

/-- No match starts at a later letter of the first word of a statement. -/
theorem matchAt_eq_none_within (hn : n.Severs f Starts w p) (hv : v ∈ heads) (hc : v <+: c.after)
    (hnone : n.matchAt false c = none) {a b : List Char} (hword : v = a ++ b) (hb : b ≠ []) :
    n.matchAt false (c.beyond a) = none := by
  cases a with
  | nil => simpa using hnone
  | cons y a =>
      obtain ⟨x, b, rfl⟩ := List.exists_cons_of_ne_nil hb
      obtain ⟨r, hr⟩ := hc
      have hafter : (c.beyond (y :: a)).after = x :: b ++ r := by
        apply Cursor.after_beyond
        rw [← hr, hword, List.append_assoc]
      have hother : heads.all (fun v => v.tail.all fun x => heads.all fun u => u.head? != some x) =
          true := by decide
      simp only [List.all_eq_true, bne_iff_ne] at hother
      apply matchAt_eq_none_of_heads hn
      rw [hafter]
      rintro u hu ⟨q, hq⟩
      apply hother v hv x (by simp [hword]) u hu
      obtain ⟨z, u, rfl⟩ := List.exists_cons_of_ne_nil (words_heads u hu).1
      rw [List.cons_append, List.cons_append] at hq
      rw [List.head?_cons, (List.cons.inj hq).1]

end Copies

section Openings

variable {n : Node} {f : Match → List Char} {v : List Char} {p : Char → Bool}
  {opens : List Char → Prop}

/-- An opening of the outcome stands in the text, where the rule has no match, if no statement
starts right after an opening there. What follows it comes from what followed it in the text, and no
statement starts there either. -/
theorem exists_opening {text before start rest : List Char} (hn : n.Severs f Starts v p)
    (hv : v ∈ heads) (hword : ∀ {s}, opens s → v <+: s)
    (hclosed : ∀ {s t}, opens (s ++ t) → v <+: s → opens s)
    (hapart : ∀ {c : Cursor}, c.text = text → v <+: c.after → n.matchAt false c = none →
      ∀ s t, c.after = s ++ t → opens s → ∀ u ∈ heads, ¬u <+: t)
    (h : n.replace none f text = before ++ (start ++ rest)) (hopens : opens start) :
    ∃ a e, (Cursor.start text).Leads e a ∧ v <+: e.after ∧ n.matchAt false e = none ∧
      e.after = start ++ (e.beyond start).after ∧ n.matchAt false (e.beyond start) = none ∧
      rest = n.replacedAt f (e.beyond start) ∧ ∀ u ∈ heads, ¬u <+: rest := by
  obtain ⟨hne, hletters⟩ := words_heads v hv
  obtain ⟨tail, rfl⟩ := hword hopens
  rw [replace_eq_replacedAt hn.advances, List.append_assoc] at h
  obtain ⟨a, e, hlead, hnone, hstart, htail, -⟩ :=
    @Severs.exists_occurrence n f Starts _ p _ hn hne hletters none _ _ h (by simp [Cursor.start])
  have hap := hapart hlead.text hstart hnone
  have houtcome : n.replacedAt f e = (v ++ tail) ++ rest := by
    rw [List.append_assoc, htail]
    refine replacedAt_skips hn.advances (Cursor.leads_beyond hstart).after fun a x b hab => ?_
    exact matchAt_eq_none_within hn hv hstart hnone hab (by simp)
  obtain ⟨hpre, hrest⟩ := prefix_of_replacedAt_of_forall hn.advances (fun s t hst ht hs => by
    by_cases hfirst : v <+: s
    · obtain ⟨r, hr⟩ := hs
      apply matchAt_eq_none_of_heads hn
      rw [Cursor.after_beyond hr.symm]
      rw [hst] at hopens
      exact hap s r hr.symm (hclosed hopens hfirst)
    · obtain ⟨r, hr⟩ := (List.prefix_or_prefix_of_prefix hstart hs).resolve_left hfirst
      refine matchAt_eq_none_within hn hv hstart hnone hr.symm ?_
      rintro rfl
      rw [List.append_nil] at hr
      exact hfirst (by rw [hr])) houtcome
  have hafter := (Cursor.leads_beyond hpre).after
  have hfree := matchAt_eq_none_of_heads hn (hap _ _ hafter hopens)
  refine ⟨a, e, hlead, hstart, hnone, hafter, hfree, hrest, ?_⟩
  rintro u hu ⟨q, hq⟩
  rw [hrest] at hq
  exact hap _ _ hafter hopens u hu
    (hn.exists_of_replacedAt (words_heads u hu).2 (fun _ => hfree) hq.symm).1

end Openings

end ScriptModules
