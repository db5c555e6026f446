import ScriptModules.Proofs.Pattern.Scan

/-!
# Replaced matches among words

Replacing matches can bring a word about that did not stand in the text, from what stood around a
match and what takes its place. It cannot where every match lies apart: no word goes on after it, or
it starts at the edge of a word and is removed. A word of the outcome is then a word of the text,
and what follows it in the outcome comes from what followed it in the text.
-/

namespace ScriptModules.Pattern.Node

open Text

/-- A word that starts a text ends before the character that is no part of a word. -/
theorem prefix_of_prefix_append {w s rest : List Char} (hw : ∀ x ∈ w, isWord x = true)
    (hrest : rest.head?.any isWord = false) (h : w <+: s ++ rest) : w <+: s := by
  rcases List.prefix_or_prefix_of_prefix h (List.prefix_append s rest) with h' | ⟨t, rfl⟩
  · exact h'
  · cases t with
    | nil => simp
    | cons x t =>
        obtain ⟨r, hr⟩ := (List.prefix_append_right_inj s).mp h
        have hx : isWord x = true := hw x (by simp)
        rw [← hr, List.cons_append, List.head?_cons, Option.any_some, hx] at hrest
        cases hrest

theorem isWord_head {w s : List Char} (hne : w ≠ []) (hw : ∀ x ∈ w, isWord x = true) (h : w <+: s) :
    s.head?.any isWord = true := by
  obtain ⟨r, rfl⟩ := h
  obtain ⟨x, t, rfl⟩ := List.exists_cons_of_ne_nil hne
  exact hw x (by simp)

theorem head?_replacedAt {n : Node} {f : Match → List Char} {c : Cursor} (hn : n.Advances)
    (h : n.matchAt false c = none) : (n.replacedAt f c).head? = c.after.head? := by
  cases hc : c.after with
  | nil => rw [replacedAt_finished h hc]
  | cons x rest => rw [replacedAt_skipped hn h hc, List.head?_cons, List.head?_cons]

/-- Matches start only where `start` holds of the text, and the words around them stay as they are:
either no word goes on after a match, and a text in its place starts at the edge of a word and holds
no `w`; or the match starts at the edge of a word, ends with a character outside of `p` and is
removed. -/
structure Severs (n : Node) (f : Match → List Char) (start : List Char → Prop) (w : List Char)
    (p : Char → Bool) :
    Prop where
  advances : n.Advances
  word : ∀ {s}, start s → s.head?.any isWord = true
  starts : ∀ {c m}, n.matchAt false c = some m → start c.after
  ends : ∀ {c m}, n.matchAt false c = some m →
    (m.last.after.head?.any isWord = false ∧
      (f m = [] ∨ c.before.head?.any isWord = false ∧ ¬w <:+: f m)) ∨
    (f m = [] ∧ c.before.head?.any isWord = false ∧ m.last.before.head?.any p = false)

namespace Severs

variable {n : Node} {f : Match → List Char} {start : List Char → Prop} {w : List Char}
  {p : Char → Bool} {c : Cursor}

theorem matchAt_eq_none_of_not_start (hn : n.Severs f start w p) (h : ¬start c.after) :
    n.matchAt false c = none := by
  rw [Option.eq_none_iff_forall_not_mem]
  intro m hm
  exact h (hn.starts hm)

theorem matchAt_eq_none (hn : n.Severs f start w p) (hc : c.after.head?.any isWord = false) :
    n.matchAt false c = none := by
  apply hn.matchAt_eq_none_of_not_start
  intro hstart
  rw [hn.word hstart] at hc
  cases hc

theorem head?_replacedAt (hn : n.Severs f start w p) (hc : c.after.head?.any isWord = false) :
    (n.replacedAt f c).head?.any isWord = false := by
  rw [Node.head?_replacedAt hn.advances (hn.matchAt_eq_none hc), hc]

/-- Text in which nothing starts is copied. -/
theorem replacedAt_append (hn : n.Severs f start w p) {s rest : List Char}
    (hc : c.after = s ++ rest) (hs : ∀ b, b <:+ s → b ≠ [] → ¬start (b ++ rest)) :
    n.replacedAt f c = s ++ n.replacedAt f (c.beyond s) := by
  refine replacedAt_skips hn.advances hc fun a x b hsplit => hn.matchAt_eq_none_of_not_start ?_
  have hafter : (c.beyond a).after = x :: b ++ rest :=
    Cursor.after_beyond (by rw [hc, hsplit, List.append_assoc])
  rw [hafter]
  exact hs (x :: b) ⟨a, hsplit.symm⟩ (by simp)

/-- Text without word characters is copied. -/
theorem replacedAt_append_of_forall (hn : n.Severs f start w p) {s rest : List Char}
    (hc : c.after = s ++ rest) (hs : ∀ x ∈ s, isWord x = false) :
    n.replacedAt f c = s ++ n.replacedAt f (c.beyond s) := by
  refine hn.replacedAt_append hc fun b hb hne hstart => ?_
  obtain ⟨x, b, rfl⟩ := List.exists_cons_of_ne_nil hne
  have hword : isWord x = true := hn.word hstart
  rw [hs x (hb.subset (by simp))] at hword
  cases hword

/-- A word with which the outcome starts is the word with which the text starts. -/
theorem exists_of_replacedAt (hn : n.Severs f start w p) {u q : List Char}
    (hu : ∀ x ∈ u, isWord x = true) (hm : u ≠ [] → n.matchAt false c = none)
    (h : n.replacedAt f c = u ++ q) :
    u <+: c.after ∧ q = n.replacedAt f (c.beyond u) := by
  induction u generalizing c with
  | nil => simpa using h.symm
  | cons x u ih =>
      have hnone := hm (by simp)
      cases hc : c.after with
      | nil => simp [replacedAt_finished hnone hc] at h
      | cons y rest =>
          rw [replacedAt_skipped hn.advances hnone hc, List.cons_append, List.cons.injEq] at h
          obtain ⟨rfl, h⟩ := h
          have hx : (c.beyond [y]).before.head?.any isWord = true := hu y (by simp)
          have hrest : u ≠ [] → n.matchAt false (c.beyond [y]) = none := by
            intro hne
            rw [Option.eq_none_iff_forall_not_mem]
            intro m hmatch
            -- a match right after a word character is removed, and no word goes on after it
            rcases hn.ends hmatch with ⟨hnext, hempty | ⟨hleft, -⟩⟩ | ⟨-, hleft, -⟩
            · rw [replacedAt_found hn.advances hmatch, hempty, List.nil_append] at h
              have hhead := hn.head?_replacedAt hnext
              obtain ⟨z, u, rfl⟩ := List.exists_cons_of_ne_nil hne
              rw [h, List.cons_append, List.head?_cons, Option.any_some, hu z (by simp)] at hhead
              cases hhead
            · rw [hx] at hleft
              cases hleft
            · rw [hx] at hleft
              cases hleft
          obtain ⟨hstart, hq⟩ := ih (fun z hz => hu z (by simp [hz])) hrest h
          rw [Cursor.after_beyond (s := [y]) hc] at hstart
          rw [Cursor.beyond_beyond] at hq
          exact ⟨List.cons_prefix_cons.mpr ⟨rfl, hstart⟩, hq⟩

/-- Wherever the outcome holds the word `w`, the text holds it too, at a place where no match
starts; what follows is replaced as well. If `p` holds of the character before it in the text, it
does in the outcome, where `left` is what stands before the outcome. -/
theorem exists_occurrence (hn : n.Severs f start w p) (hne : w ≠ []) (hw : ∀ x ∈ w, isWord x = true)
    {left : Option Char} {b q : List Char} (h : n.replacedAt f c = b ++ (w ++ q))
    (hleft : c.after.head?.any isWord = true → c.before.head?.any p = true → left.any p = true) :
    ∃ a e, c.Leads e a ∧ n.matchAt false e = none ∧ w <+: e.after ∧
      q = n.replacedAt f (e.beyond w) ∧
      (e.before.head?.any p = true → (b.getLast?.or left).any p = true) := by
  induction c using scan_induction hn.advances generalizing left b with
  | found c m hm ih =>
      obtain ⟨t, ht⟩ := exists_leads_of_matchAt hm
      -- from the end of the match the claim is carried back over it
      have hback : ∀ left' b', n.replacedAt f m.last = b' ++ (w ++ q) →
          (m.last.after.head?.any isWord = true → m.last.before.head?.any p = true →
            left'.any p = true) →
          b'.getLast?.or left' = b.getLast?.or left →
          ∃ a e, c.Leads e a ∧ n.matchAt false e = none ∧ w <+: e.after ∧
            q = n.replacedAt f (e.beyond w) ∧
            (e.before.head?.any p = true → (b.getLast?.or left).any p = true) := by
        intro left' b' hb' hleft' hsame
        obtain ⟨a, e, hlead, hrest⟩ := ih hb' hleft'
        rw [hsame] at hrest
        exact ⟨t ++ a, e, ht.trans hlead, hrest⟩
      rw [replacedAt_found hn.advances hm] at h
      rcases hn.ends hm with ⟨hnext, hempty | ⟨-, hfree⟩⟩ | ⟨hempty, -, hlast⟩
      · rw [hempty, List.nil_append] at h
        exact hback left b h (by simp [hnext]) rfl
      · rcases List.append_eq_append_iff.mp h with ⟨b', rfl, hb'⟩ | ⟨s, hs, htail⟩
        · refine hback ((f m).getLast?.or left) b' hb' (by simp [hnext]) ?_
          rw [List.getLast?_append, Option.or_assoc]
        · have hinside : w <+: s :=
            prefix_of_prefix_append hw (hn.head?_replacedAt hnext) ⟨q, htail⟩
          rw [hs] at hfree
          exact absurd (hinside.isInfix.trans (List.suffix_append b s).isInfix) hfree
      · rw [hempty, List.nil_append] at h
        exact hback left b h (by simp [hlast]) rfl
  | skipped c x rest hm hx ih =>
      cases b with
      | nil =>
          obtain ⟨hstart, hq⟩ := hn.exists_of_replacedAt hw (fun _ => hm) h
          exact ⟨[], c, .refl c, hm, hstart, hq, hleft (isWord_head hne hw hstart)⟩
      | cons y b =>
          rw [replacedAt_skipped hn.advances hm hx, List.cons_append, List.cons.injEq] at h
          obtain ⟨rfl, h⟩ := h
          obtain ⟨a, e, hlead, hnone, hstart, hq, hlast⟩ := @ih (some x) b h (fun _ hp => hp)
          have hover : c.Leads (c.beyond [x]) [x] := Cursor.leads_beyond ⟨rest, hx.symm⟩
          refine ⟨[x] ++ a, e, hover.trans hlead, hnone, hstart, hq, fun hp => ?_⟩
          have hsame : (x :: b).getLast?.or left = b.getLast?.or (some x) := by
            rw [List.getLast?_cons]
            cases b.getLast? <;> rfl
          rw [hsame]
          exact hlast hp
  | finished c hm hx =>
      rw [replacedAt_finished hm hx] at h
      simp [hne] at h

end Severs

end ScriptModules.Pattern.Node
