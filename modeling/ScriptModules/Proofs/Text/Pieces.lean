import ScriptModules.Text.Blank
import ScriptModules.Text.Split
import ScriptModules.Text.Word

/-!
# Runs, parts and words

A run of characters of one kind ends where another kind follows, a separator ends one part of a text
and starts the next, and taking the words of a text undoes joining words by blanks. So a text whose
blanks were squeezed once is the same after it is padded and squeezed again.
-/

namespace ScriptModules.Text

section Runs

variable {f : Char → Bool} {l r : List Char}

/-- A run is as long as in a text without what follows, if it ends before that. -/
theorem takeWhile_append_of_stop (h : r.takeWhile f = [] ∨ ∃ x ∈ l, f x = false) :
    (l ++ r).takeWhile f = l.takeWhile f := by
  induction l with
  | nil =>
      rcases h with h | ⟨x, hx, -⟩
      · simpa using h
      · simp at hx
  | cons y l ih =>
      by_cases hy : f y = true
      · have hrest : r.takeWhile f = [] ∨ ∃ x ∈ l, f x = false := by
          refine h.imp_right ?_
          rintro ⟨x, hx, hfalse⟩
          rcases List.mem_cons.mp hx with rfl | hx
          · simp [hy] at hfalse
          · exact ⟨x, hx, hfalse⟩
        simp [hy, ih hrest]
      · simp [hy]

/-- A run ends where a character of another kind follows. -/
theorem takeWhile_append_of_head (hl : ∀ x ∈ l, f x = true) (hr : ∀ x ∈ r.head?, f x = false) :
    (l ++ r).takeWhile f = l := by
  rw [List.takeWhile_append_of_pos hl]
  cases r with
  | nil => simp
  | cons x r => simp [hr x rfl]

theorem dropWhile_append_of_head (hl : ∀ x ∈ l, f x = true) (hr : ∀ x ∈ r.head?, f x = false) :
    (l ++ r).dropWhile f = r := by
  rw [List.dropWhile_append_of_pos hl]
  cases r with
  | nil => rfl
  | cons x r => simp [hr x rfl]

end Runs

section Parts

variable {sep : Char}

theorem splitOn_of_not_mem {s : List Char} (h : sep ∉ s) : splitOn sep s = [s] := by
  induction s with
  | nil => rfl
  | cons c s ih =>
      obtain ⟨hc, hs⟩ := not_or.mp (mt List.mem_cons.mpr h)
      simp [splitOn, Ne.symm hc, ih hs]

/-- A separator ends one part and starts the next. -/
theorem splitOn_append (a b : List Char) :
    splitOn sep (a ++ sep :: b) = splitOn sep a ++ splitOn sep b := by
  induction a with
  | nil => simp [splitOn]
  | cons c a ih =>
      obtain ⟨first, others, hparts⟩ := List.exists_cons_of_ne_nil (splitOn_ne_nil sep a)
      by_cases hc : c = sep
      · simp [splitOn, hc, ih]
      · simp [splitOn, hc, ih, hparts]

/-- The parts hold the characters of the text but the separator. -/
theorem mem_of_mem_splitOn {s p : List Char} {x : Char} (hp : p ∈ splitOn sep s) (hx : x ∈ p) :
    x ∈ s ∧ x ≠ sep := by
  induction s generalizing p with
  | nil => simp_all [splitOn]
  | cons c s ih =>
      rw [splitOn] at hp
      split at hp
      · rcases List.mem_cons.mp hp with rfl | hp
        · simp at hx
        · obtain ⟨hs, hsep⟩ := ih hp hx
          exact ⟨List.mem_cons_of_mem _ hs, hsep⟩
      · rename_i hc
        split at hp
        · rename_i hnil
          exact absurd hnil (splitOn_ne_nil sep s)
        · rename_i first others hs
          have hmem : ∀ q ∈ first :: others, x ∈ q → x ∈ s ∧ x ≠ sep := fun q hq => ih (hs ▸ hq)
          rcases List.mem_cons.mp hp with rfl | hp
          · rcases List.mem_cons.mp hx with rfl | hx
            · exact ⟨by simp, by simpa using hc⟩
            · obtain ⟨hxs, hsep⟩ := hmem first (by simp) hx
              exact ⟨List.mem_cons_of_mem _ hxs, hsep⟩
          · obtain ⟨hxs, hsep⟩ := hmem p (List.mem_cons_of_mem _ hp) hx
            exact ⟨List.mem_cons_of_mem _ hxs, hsep⟩

end Parts

section Factors

variable {s t r : List Char} {z : Char}

theorem prefix_of_not_mem (h : t <+: s ++ z :: r) (hz : z ∉ t) : t <+: s := by
  rcases List.prefix_or_prefix_of_prefix h (List.prefix_append s (z :: r)) with hts | ⟨u, rfl⟩
  · exact hts
  · rcases List.prefix_cons_iff.mp ((List.prefix_append_right_inj s).mp h) with rfl | ⟨v, rfl, -⟩
    · simp
    · simp at hz

theorem infix_or_of_not_mem (h : t <:+: s ++ z :: r) (hz : z ∉ t) : t <:+: s ∨ t <:+: r := by
  induction s with
  | nil =>
      rcases List.infix_cons_iff.mp h with hpre | hin
      · exact .inl (prefix_of_not_mem (s := []) hpre hz).isInfix
      · exact .inr hin
  | cons x s ih =>
      rcases List.infix_cons_iff.mp h with hpre | hin
      · exact .inl (prefix_of_not_mem (s := x :: s) hpre hz).isInfix
      · exact (ih hin).imp_left fun hs => List.infix_cons hs

/-- A factor that does not start with a blank starts after the blanks. -/
theorem infix_of_blank_append (hs : ∀ x ∈ s, isBlank x = true) (hz : isBlank z = false)
    (h : z :: t <:+: s ++ r) :
    z :: t <:+: r := by
  induction s with
  | nil => exact h
  | cons x s ih =>
      rcases List.infix_cons_iff.mp h with hpre | hin
      · obtain rfl : z = x := (List.cons_prefix_cons.mp hpre).1
        simp [hz] at hs
      · exact ih (fun y hy => hs y (List.mem_cons_of_mem _ hy)) hin

/-- A factor that does not end in a blank ends before the blanks. -/
theorem infix_of_append_blank (hs : ∀ x ∈ s, isBlank x = true) (hz : isBlank z = false)
    (h : t ++ [z] <:+: r ++ s) :
    t ++ [z] <:+: r := by
  rw [← List.reverse_infix] at h ⊢
  simp only [List.reverse_append, List.reverse_singleton, List.singleton_append] at h ⊢
  exact infix_of_blank_append (by simpa using hs) hz h

end Factors

section Trimmed

variable {b s b' : List Char}

theorem trim_of_isBlank (hb : ∀ x ∈ b, isBlank x = true) : trim b = [] := by
  have hstart : trimStart (b ++ []) = [] := dropWhile_append_of_head hb (by simp)
  rw [List.append_nil] at hstart
  rw [trim, hstart]
  rfl

/-- Blanks around a text are trimmed, and no others. -/
theorem trim_append (hb : ∀ x ∈ b, isBlank x = true) (hb' : ∀ x ∈ b', isBlank x = true)
    (hhead : ∀ x ∈ s.head?, isBlank x = false) (hlast : ∀ x ∈ s.getLast?, isBlank x = false) :
    trim (b ++ (s ++ b')) = s := by
  cases hs : s with
  | nil =>
      have hblank : ∀ x ∈ b ++ b', isBlank x = true :=
        fun x hx => (List.mem_append.mp hx).elim (hb x) (hb' x)
      exact trim_of_isBlank hblank
  | cons x rest =>
      have hstart : trimStart (b ++ (x :: rest ++ b')) = x :: rest ++ b' :=
        dropWhile_append_of_head hb (by simpa [hs] using hhead)
      rw [trim, hstart, List.reverse_append, dropWhile_append_of_head (by simpa using hb'),
        List.reverse_reverse]
      rwa [← hs, List.head?_reverse]

end Trimmed

/-- No blank is a character of identifiers. -/
theorem isIdent_of_isBlank {c : Char} (h : isBlank c = true) : isIdent c = false := by
  have hcodes :
      ∀ n ∈ [9, 10, 11, 12, 13, 0x1c, 0x1d, 0x1e, 0x1f, 0x20, 0x85, 0xa0, 0x1680, 0x2000, 0x2001,
      0x2002, 0x2003, 0x2004, 0x2005, 0x2006, 0x2007, 0x2008, 0x2009, 0x200a, 0x2028, 0x2029,
      0x202f, 0x205f,
      0x3000], isIdent (Char.ofNat n) = false := by decide +kernel
  rw [← Char.ofNat_toNat c]
  apply hcodes
  simp only [isBlank, Bool.or_eq_true, Bool.and_eq_true, decide_eq_true_eq, beq_iff_eq] at h
  simp only [List.mem_cons, List.not_mem_nil, or_false]
  omega

theorem isBlank_of_isIdent {c : Char} (h : isIdent c = true) : isBlank c = false := by
  cases hblank : isBlank c with
  | true => simp [isIdent_of_isBlank hblank] at h
  | false => rfl

/-- A text of one or more characters without a blank. -/
def IsSolid (w : List Char) : Prop := w ≠ [] ∧ ∀ x ∈ w, isBlank x = false

/-- A text of one or more characters of identifiers. -/
def IsIdentifier (w : List Char) : Prop := w ≠ [] ∧ ∀ x ∈ w, isIdent x = true

instance (w : List Char) : Decidable (IsIdentifier w) :=
  decidable_of_iff (w ≠ [] ∧ w.all isIdent = true) (by simp [IsIdentifier])

theorem IsIdentifier.isSolid {w : List Char} (h : IsIdentifier w) : IsSolid w :=
  ⟨h.1, fun x hx => isBlank_of_isIdent (h.2 x hx)⟩

theorem IsIdentifier.not_mem {w : List Char} (h : IsIdentifier w) {x : Char}
    (hx : isIdent x = false) :
    x ∉ w := by
  intro hmem
  simp [h.2 x hmem] at hx

section Words

variable {w s : List Char}

theorem words_cons_of_isBlank {c : Char} (h : isBlank c = true) (s : List Char) :
    words (c :: s) = words s := by
  simp [words, h]

theorem words_cons_of_solid {c d : Char} (hc : isBlank c = false) (hd : isBlank d = false)
    (s : List Char) :
    words (c :: d :: s) = consFirst c (words (d :: s)) := by
  rw [words]
  simp [hc, hd]

theorem words_cons_before_blank {c d : Char} (hc : isBlank c = false) (hd : isBlank d = true)
    (s : List Char) :
    words (c :: d :: s) = [c] :: words (d :: s) := by
  rw [words]
  simp [hc, hd]

theorem words_cons_ne_nil {c : Char} (h : isBlank c = false) (s : List Char) :
    words (c :: s) ≠ [] := by
  cases s with
  | nil => simp [words, h]
  | cons d s =>
      cases hd : isBlank d with
      | true => simp [words, h, hd]
      | false =>
          rw [words_cons_of_solid h hd]
          cases words (d :: s) <;> simp [consFirst]

theorem consFirst_append (c : Char) {ws : List (List Char)} (h : ws ≠ []) (vs : List (List Char)) :
    consFirst c (ws ++ vs) = consFirst c ws ++ vs := by
  cases ws with
  | nil => exact absurd rfl h
  | cons w ws => rfl

/-- A blank separates words. -/
theorem words_append_blank {b : Char} (hb : isBlank b = true) (s t : List Char) :
    words (s ++ b :: t) = words s ++ words t := by
  induction s with
  | nil => simp [words_cons_of_isBlank hb, words]
  | cons c s ih =>
      cases hc : isBlank c with
      | true => simpa [words_cons_of_isBlank hc] using ih
      | false =>
          cases s with
          | nil => simp [words, hc, hb]
          | cons d s =>
              cases hd : isBlank d with
              | true =>
                  rw [List.cons_append, List.cons_append, words_cons_before_blank hc hd,
                    words_cons_before_blank hc hd, ← List.cons_append, ih,
                    List.cons_append]
              | false =>
                  rw [List.cons_append, List.cons_append, words_cons_of_solid hc hd,
                    words_cons_of_solid hc hd, ← List.cons_append, ih,
                    consFirst_append c (words_cons_ne_nil hd s)]

theorem words_of_isSolid (h : IsSolid w) : words w = [w] := by
  obtain ⟨hne, hsolid⟩ := h
  induction w with
  | nil => exact absurd rfl hne
  | cons c w ih =>
      have hc := hsolid c (by simp)
      cases w with
      | nil => simp [words, hc]
      | cons d w =>
          have hrest := ih (by simp) fun x hx => hsolid x (List.mem_cons_of_mem _ hx)
          rw [words_cons_of_solid hc (hsolid d (by simp)), hrest, consFirst]

/-- The words of a text are solid and hold characters of the text. -/
theorem mem_words (h : w ∈ words s) : IsSolid w ∧ ∀ x ∈ w, x ∈ s := by
  induction s generalizing w with
  | nil => simp [words] at h
  | cons c s ih =>
      have hlift : ∀ {w}, w ∈ words s → IsSolid w ∧ ∀ x ∈ w, x ∈ c :: s := fun hw =>
        ⟨(ih hw).1, fun x hx => List.mem_cons_of_mem _ ((ih hw).2 x hx)⟩
      cases hc : isBlank c with
      | true => exact hlift (words_cons_of_isBlank hc s ▸ h)
      | false =>
          have hone : IsSolid [c] ∧ ∀ x ∈ [c], x ∈ c :: s := ⟨⟨by simp, by simpa using hc⟩, by simp⟩
          cases s with
          | nil =>
              obtain rfl : w = [c] := by simpa [words, hc] using h
              exact hone
          | cons d t =>
              cases hd : isBlank d with
              | true =>
                  rw [words_cons_before_blank hc hd] at h
                  rcases List.mem_cons.mp h with rfl | h
                  · exact hone
                  · exact hlift h
              | false =>
                  obtain ⟨v, vs, hvs⟩ := List.exists_cons_of_ne_nil (words_cons_ne_nil hd t)
                  rw [words_cons_of_solid hc hd, hvs, consFirst] at h
                  rcases List.mem_cons.mp h with rfl | h
                  · obtain ⟨hv, hmem⟩ := @hlift v (by simp [hvs])
                    refine ⟨⟨by simp, ?_⟩, ?_⟩
                    · simpa [hc] using hv.2
                    · intro x hx
                      rcases List.mem_cons.mp hx with rfl | hx
                      · simp
                      · exact hmem x hx
                  · exact hlift (by simp [hvs, h])

/-- Taking the words undoes joining words by blanks. -/
theorem words_intercalate {ws : List (List Char)} (h : ∀ w ∈ ws, IsSolid w) :
    words ([' '].intercalate ws) = ws := by
  induction ws with
  | nil => rfl
  | cons w ws ih =>
      have hw := words_of_isSolid (h w (by simp))
      cases ws with
      | nil => rw [List.intercalate_singleton, hw]
      | cons v ws =>
          rw [List.intercalate_cons_cons, List.append_assoc, List.singleton_append,
            words_append_blank (by decide), hw, ih fun u hu => h u (List.mem_cons_of_mem _ hu)]
          rfl

theorem words_squeeze (s : List Char) : words (squeeze s) = words s :=
  words_intercalate fun _ hw => (mem_words hw).1

theorem squeeze_squeeze (s : List Char) : squeeze (squeeze s) = squeeze s := by
  rw [squeeze, words_squeeze, squeeze]

theorem squeeze_of_isSolid (h : IsSolid w) : squeeze w = w := by
  rw [squeeze, words_of_isSolid h, List.intercalate_singleton]

/-- Blanks in front are squeezed away. -/
theorem squeeze_cons_blank {b : Char} (hb : isBlank b = true) (s : List Char) :
    squeeze (b :: s) = squeeze s := by
  rw [squeeze, words_cons_of_isBlank hb, squeeze]

/-- Blanks at the end are squeezed away. -/
theorem squeeze_append_blank {b : Char} (hb : isBlank b = true) (s : List Char) :
    squeeze (s ++ [b]) = squeeze s := by
  rw [squeeze, words_append_blank hb]
  simp [words, squeeze]

theorem exists_of_mem_intercalate {x : Char} {sep : List Char} {ws : List (List Char)}
    (h : x ∈ sep.intercalate ws) : (∃ w ∈ ws, x ∈ w) ∨ x ∈ sep := by
  induction ws with
  | nil => simp at h
  | cons w ws ih =>
      cases ws with
      | nil => exact .inl ⟨w, by simp, by simpa using h⟩
      | cons v ws =>
          rw [List.intercalate_cons_cons, List.append_assoc, List.mem_append, List.mem_append] at h
          rcases h with hx | hx | hx
          · exact .inl ⟨w, by simp, hx⟩
          · exact .inr hx
          · rcases ih hx with ⟨u, hu, hx⟩ | hx
            · exact .inl ⟨u, List.mem_cons_of_mem _ hu, hx⟩
            · exact .inr hx

/-- Squeezing keeps characters that are not blank, and the only blank it leaves is `' '`. -/
theorem mem_of_mem_squeeze {x : Char} (h : x ∈ squeeze s) :
    x ∈ s ∧ isBlank x = false ∨ x = ' ' := by
  rcases exists_of_mem_intercalate h with ⟨w, hw, hx⟩ | hx
  · obtain ⟨hsolid, hmem⟩ := mem_words hw
    exact .inl ⟨hmem x hx, hsolid.2 x hx⟩
  · exact .inr (List.mem_singleton.mp hx)

end Words

end ScriptModules.Text
