import ScriptModules.Proofs.Rule.Wrapping
import Mathlib.Data.Nat.Find

/-!
# Brackets around a wrapper

The head of a wrapper opens a brace that its end closes. The rules that take a wrapper off remove
the first head that is written in the text, and the end that stands at the end of the text, and do
not look whether they belong together. A script whose brackets are nested keeps them so if neither
of the two is found, or if both are found and the text before the head and the body are nested
without them. Two functions in a row, each of them called at once, are cut open.
-/

namespace ScriptModules.Rule

open Pattern Pattern.Node Text

/-- The bracket that closes an opening one. -/
def partner? : Char → Option Char
  | '(' => some ')'
  | '[' => some ']'
  | '\x7b' => some '\x7d'
  | _ => none

/-- The closing brackets that are due after a text, the next one first, where `due` are those before
it. There are none if the text has a closing bracket that is not due. -/
def dueAfter (due : List Char) : List Char → Option (List Char)
  | [] => some due
  | x :: rest =>
    match partner? x with
    | some y => dueAfter (y :: due) rest
    | none =>
      if [')', ']', '\x7d'].contains x then
        if due.head? = some x then dueAfter due.tail rest else none
      else dueAfter due rest

/-- The brackets of the text are nested. -/
def Nested (text : List Char) : Prop := dueAfter [] text = some []

instance (text : List Char) : Decidable (Nested text) :=
  inferInstanceAs (Decidable (dueAfter [] text = some []))

section Brackets

variable {due out s t : List Char} {x : Char}

/-- A character changes what is due in one way: an opening brace adds one closing brace, a closing
brace takes one, and any other character leaves their number. -/
theorem exists_due_of_cons (h : dueAfter due (x :: s) = some out) :
    ∃ due', dueAfter due' s = some out ∧
      [x].count '\x7b' + due.count '\x7d' = [x].count '\x7d' + due'.count '\x7d' := by
  rw [dueAfter] at h
  cases hx : partner? x with
  | some y =>
      rw [hx] at h
      refine ⟨y :: due, h, ?_⟩
      unfold partner? at hx
      split at hx
      · obtain rfl := Option.some.inj hx
        simp
      · obtain rfl := Option.some.inj hx
        simp
      · obtain rfl := Option.some.inj hx
        simp [Nat.add_comm]
      · cases hx
  | none =>
      have hopen : x ≠ '\x7b' := by
        rintro rfl
        cases hx
      simp only [hx] at h
      by_cases hclose : [')', ']', '\x7d'].contains x = true
      · rw [if_pos hclose] at h
        by_cases hdue : due.head? = some x
        · rw [if_pos hdue] at h
          obtain ⟨due', rfl⟩ := List.head?_eq_some_iff.mp hdue
          exact ⟨due', h, by simp [List.count_cons, hopen, Nat.add_comm]⟩
        · rw [if_neg hdue] at h
          cases h
      · rw [if_neg hclose] at h
        have hother : x ≠ '\x7d' := by
          rintro rfl
          exact hclose (by decide)
        exact ⟨due, h, by simp [hopen, hother]⟩

/-- What is due after a text tells its opening and closing braces apart. -/
theorem count_of_dueAfter (h : dueAfter due s = some out) :
    s.count '\x7b' + due.count '\x7d' = s.count '\x7d' + out.count '\x7d' := by
  induction s generalizing due with
  | nil =>
      obtain rfl := Option.some.inj h
      rfl
  | cons x s ih =>
      obtain ⟨due', hs, hx⟩ := exists_due_of_cons h
      have hrest := ih hs
      rw [← List.singleton_append, List.count_append, List.count_append]
      omega

theorem Nested.count_eq (h : Nested s) : s.count '\x7b' = s.count '\x7d' := by
  simpa using count_of_dueAfter h

theorem dueAfter_append (due s t : List Char) :
    dueAfter due (s ++ t) = (dueAfter due s).bind (dueAfter · t) := by
  induction s generalizing due with
  | nil => rfl
  | cons x s ih =>
      simp only [List.cons_append, dueAfter]
      cases partner? x with
      | some y => exact ih (y :: due)
      | none =>
          simp only [ih]
          split
          · split
            · rfl
            · rfl
          · rfl

/-- What is due after the start of a nested text is closed by the rest of it. -/
theorem Nested.exists_due (h : Nested (s ++ t)) :
    ∃ due, dueAfter [] s = some due ∧ dueAfter due t = some [] := by
  rw [Nested, dueAfter_append] at h
  exact Option.bind_eq_some_iff.mp h

theorem nested_lineBreak : Nested (s ++ ['\n']) ↔ Nested s := by
  have hbreak : ∀ due, dueAfter due ['\n'] = some due := fun due => rfl
  rw [Nested, dueAfter_append]
  simp only [hbreak, Option.bind_fun_some, Nested]

end Brackets

section Texts

variable {k : Closer} {opener closing rest rest' tail t : List Char}

/-- The head of a wrapper holds a single brace, at its end. -/
theorem WrittenOpener.exists_brace (h : WrittenOpener opener) :
    ∃ front, opener = front ++ ['\x7b'] ∧ '\x7b' ∉ front ∧ '\x7d' ∉ front := by
  obtain ⟨s, b, hb, heq, -, hparens⟩ := h.exists_front allBlank_nil
  have hnone : ∀ x ∈ marks, x ≠ '(' → x ≠ ')' → x ∉ s ++ ')' :: b := by
    intro x hmark hopen hclose hmem
    rcases List.mem_append.mp hmem with hmem | hmem
    · exact (hparens x hmem hmark).elim hopen hclose
    · rcases List.mem_cons.mp hmem with rfl | hmem
      · exact hclose rfl
      · exact unmarked_of_allBlank hb x hmem hmark
  exact ⟨_, heq, hnone _ (by decide) (by decide) (by decide),
    hnone _ (by decide) (by decide) (by decide)⟩

theorem WrittenOpener.count_braces (h : WrittenOpener opener) :
    opener.count '\x7b' = 1 ∧ opener.count '\x7d' = 0 := by
  obtain ⟨front, rfl, hopen, hclose⟩ := h.exists_brace
  simp [List.count_append, List.count_eq_zero.mpr hopen, List.count_eq_zero.mpr hclose]

/-- A head is told by the place where it starts. -/
theorem WrittenOpener.unique {opener' : List Char} (h : WrittenOpener opener)
    (h' : WrittenOpener opener') (heq : opener ++ rest = opener' ++ rest') :
    opener = opener' ∧ rest = rest' := by
  obtain ⟨front, rfl, hopen, -⟩ := h.exists_brace
  obtain ⟨front', rfl, hopen', -⟩ := h'.exists_brace
  have hother : ∀ {s : List Char}, '\x7b' ∉ s → ∀ x ∈ s, (x != '\x7b') = true := by
    intro s hs x hx
    rw [bne_iff_ne]
    rintro rfl
    exact hs hx
  obtain ⟨rfl, -, rfl⟩ :=
    Statement.eq_of_append_of_ends (hother hopen) (hother hopen') (by decide) (by decide)
    (by simpa using heq : front ++ '\x7b' :: rest = front' ++ '\x7b' :: rest')
  exact ⟨rfl, rfl⟩

/-- After its first brace, the end of a wrapper holds at most one pair of braces. -/
theorem WrittenCloser.exists_brace (h : WrittenCloser k [] closing) :
    ∃ t, closing = '\x7d' :: t ∧ t.count '\x7b' = t.count '\x7d' ∧ t.count '\x7d' ≤ 1 := by
  have hnone : ∀ {s : List Char}, '\x7b' ∉ s → '\x7d' ∉ s → s.count '\x7b' = 0 ∧
      s.count '\x7d' = 0 :=
    fun hopen hclose => ⟨List.count_eq_zero.mpr hopen, List.count_eq_zero.mpr hclose⟩
  have hblank : ∀ {b : List Char}, AllBlank b → b.count '\x7b' = 0 ∧ b.count '\x7d' = 0 := fun hb =>
    hnone (not_mem_of_allBlank hb (by decide)) (not_mem_of_allBlank hb (by decide))
  have hends : ∀ {tail : List Char}, WrittenTail tail → tail.count '\x7b' = 0 ∧
      tail.count '\x7d' = 0 := fun ht =>
    hnone (ht.not_mem (by decide) (by decide)) (ht.not_mem (by decide) (by decide))
  cases h with
  | @outside b₁ b₂ args _ default tail h₁ h₂ hargs hdefault htail =>
      have hargument :=
        hnone (not_mem_argument hargs (by decide)) (not_mem_argument hargs (by decide))
      refine ⟨_, rfl, ?_⟩
      cases hdefault with
      | absent => simp [hblank h₁, hblank h₂, hargument, hends htail]
      | present hb _ hb' =>
          simp [hblank h₁, hblank h₂, hargument, hblank hb, hblank hb', hends htail]
  | @inside b₁ b₂ name b₃ b₄ tail h₁ h₂ hname h₃ h₄ htail =>
      have hparameter := hnone (not_mem_name hname (by decide)) (not_mem_name hname (by decide))
      refine ⟨_, rfl, ?_⟩
      simp [hblank h₁, hblank h₂, hblank h₃, hblank h₄, hparameter, hends htail]

/-- Another line break may follow the end of a wrapper. -/
theorem WrittenCloser.append_lineBreak (h : WrittenCloser k [] closing) :
    WrittenCloser k [] (closing ++ ['\n']) := by
  have hbreak : AllBlank ['\n'] := allBlank_singleton (by decide)
  have htail : ∀ {tail : List Char}, WrittenTail tail → WrittenTail (tail ++ ['\n']) := by
    rintro _ ⟨hb, hstop, hb'⟩
    simpa using WrittenTail.intro hb hstop (allBlank_append hb' hbreak)
  cases h with
  | outside h₁ h₂ hargs hdefault hend =>
      simpa using WrittenCloser.outside h₁ h₂ hargs hdefault (htail hend)
  | inside h₁ h₂ hname h₃ h₄ hend => simpa using WrittenCloser.inside h₁ h₂ hname h₃ h₄ (htail hend)

/-- The pattern of a head reads what may be written as one. -/
theorem exists_writtenOpener {c d : Cursor} (h : d ∈ wrapperOpener.ways c) :
    ∃ opener, WrittenOpener opener ∧ c.after = opener ++ d.after := by
  obtain ⟨c₁, hopen, h⟩ := mem_ways_seq.mp h
  obtain ⟨c₂, hb₁, h⟩ := mem_ways_seq.mp h
  obtain ⟨c₃, hword, h⟩ := mem_ways_seq.mp h
  obtain ⟨c₄, hb₂, h⟩ := mem_ways_seq.mp h
  obtain ⟨c₅, hparen, h⟩ := mem_ways_seq.mp h
  obtain ⟨c₆, hb₃, h⟩ := mem_ways_seq.mp h
  obtain ⟨c₇, hname, h⟩ := mem_ways_seq.mp h
  obtain ⟨c₈, hb₄, h⟩ := mem_ways_seq.mp h
  obtain ⟨c₉, hclose, h⟩ := mem_ways_seq.mp h
  obtain ⟨c₁₀, hb₅, hbrace⟩ := mem_ways_seq.mp h
  obtain ⟨b₁, h₁, ha₁, -⟩ := passes_blanks hb₁
  obtain ⟨b₂, h₂, ha₂, -⟩ := passes_blanks hb₂
  obtain ⟨b₃, h₃, ha₃, -⟩ := passes_blanks hb₃
  obtain ⟨b₄, h₄, ha₄, -⟩ := passes_blanks hb₄
  obtain ⟨b₅, h₅, ha₅, -⟩ := passes_blanks hb₅
  have hparameter : ∃ name, (∀ x ∈ name, isIdent x = true) ∧ c₆.after = name ++ c₇.after := by
    rcases mem_ways_optional.mp hname with hname | rfl
    · obtain ⟨name, -, hident, hafter, -⟩ := passes_group_oneOrMore hname
      exact ⟨name, by simpa using hident, hafter⟩
    · exact ⟨[], by simp, rfl⟩
  obtain ⟨name, hident, hafter⟩ := hparameter
  refine ⟨_, .intro h₁ h₂ h₃ hident h₄ h₅, ?_⟩
  rw [(passes_char hopen).1, ha₁, (passes_word hword).1, ha₂, (passes_char hparen).1, ha₃, hafter,
    ha₄, (passes_char hclose).1, ha₅, (passes_char hbrace).1]
  simp

end Texts

/-- The first head of a wrapper in the text, with what stands around it. -/
structure OpensAt (text before opener rest : List Char) : Prop where
  text_eq : text = before ++ (opener ++ rest)
  opens : WrittenOpener opener
  first : ∀ a o b, text = a ++ (o ++ b) → WrittenOpener o → before.length ≤ a.length

/-- No head of a wrapper is written in the text. -/
def Unopened (text : List Char) : Prop := ∀ a o b, text = a ++ (o ++ b) → ¬WrittenOpener o

/-- No end of a wrapper is written at the end of the text. -/
def Unclosed (k : Closer) (text : List Char) : Prop :=
  ∀ a closing, text = a ++ closing → ¬WrittenCloser k [] closing

section Finding

variable {k : Closer} {text before opener rest before' opener' rest' : List Char}

theorem unopened_or_opensAt (text : List Char) :
    Unopened text ∨ ∃ before opener rest, OpensAt text before opener rest := by
  classical
  by_cases h : ∃ n a o b, text = a ++ (o ++ b) ∧ WrittenOpener o ∧ a.length = n
  · right
    obtain ⟨a, o, b, htext, hopens, hlength⟩ := Nat.find_spec h
    refine ⟨a, o, b, htext, hopens, fun a' o' b' htext' hopens' => ?_⟩
    rw [hlength]
    exact Nat.find_min' h ⟨a', o', b', htext', hopens', rfl⟩
  · left
    intro a o b htext hopens
    exact h ⟨a.length, a, o, b, htext, hopens, rfl⟩

theorem OpensAt.unique (h : OpensAt text before opener rest)
    (h' : OpensAt text before' opener' rest') :
    before = before' ∧ rest = rest' := by
  have hlength : before.length = before'.length :=
    Nat.le_antisymm (h.first _ _ _ h'.text_eq h'.opens) (h'.first _ _ _ h.text_eq h.opens)
  obtain ⟨rfl, heq⟩ := List.append_inj (h.text_eq.symm.trans h'.text_eq) hlength
  exact ⟨rfl, (h.opens.unique h'.opens heq).2⟩

theorem advances_wrapperOpener : wrapperOpener.Advances := advances_seq_left (advances_set _)

/-- The first rule removes the first head. -/
theorem OpensAt.apply_opener (h : OpensAt text before opener rest) :
    (removing wrapperOpener).onlyFirst.apply text = .ok (before ++ rest) := by
  obtain ⟨rfl, hopens, hfirst⟩ := h
  have hafter : ((Cursor.start (before ++ (opener ++ rest))).beyond before).after =
      opener ++ rest :=
    Cursor.after_beyond rfl
  obtain ⟨d, hd, hlast⟩ :=
    consumes_wrapperOpener hopens rest ((Cursor.start _).beyond before).fresh hafter
  rw [removing, apply_onlyFirst, replace_one advances_wrapperOpener ?_ hd.matchAt hlast]
  · rfl
  · intro a x b hab
    rw [Option.eq_none_iff_forall_not_mem]
    intro m hm
    obtain ⟨o, ho, hrest⟩ := exists_writtenOpener (matchAt_sound hm).2
    have hc : (Cursor.start (before ++ (opener ++ rest))).after =
        a ++ (x :: b ++ (opener ++ rest)) := by
      simp only [Cursor.start, hab, List.append_assoc]
    rw [Cursor.after_fresh, Cursor.after_beyond hc] at hrest
    have hle := hfirst a o m.last.after (by rw [← hrest, hab]; simp) ho
    rw [hab, List.length_append, List.length_cons] at hle
    omega

theorem Unopened.apply_opener (h : Unopened text) :
    (removing wrapperOpener).onlyFirst.apply text = .ok text := by
  rw [removing, apply_onlyFirst, replace_eq_self advances_wrapperOpener]
  intro a b hab
  rw [Option.eq_none_iff_forall_not_mem]
  intro m hm
  obtain ⟨o, ho, hrest⟩ := exists_writtenOpener (matchAt_sound hm).2
  rw [Cursor.after_fresh, Cursor.after_beyond (c := Cursor.start text) hab] at hrest
  exact h a o m.last.after (by rw [hab, hrest]) ho

/-- The second rule replaces an end that is written at the end of the text, and nothing else. -/
theorem Unclosed.apply_closer (h : Unclosed k text) :
    (replacing k.pattern "\n").onlyFirst.apply text = .ok text := by
  rw [apply_onlyFirst, replace_eq_self (advances_closer k)]
  intro a b hab
  rw [Option.eq_none_iff_forall_not_mem]
  intro m hm
  obtain ⟨closing, stop, hwritten, hclosing, hstop⟩ := exists_writtenCloser_of_matchAt hm
  rw [Cursor.after_beyond (c := Cursor.start text) hab] at hclosing
  rcases hstop with rfl | rfl
  · exact h a closing (by rw [hab, hclosing, List.append_nil]) hwritten
  · exact h a _ (by rw [hab, hclosing]) hwritten.append_lineBreak

/-- Two ends of a wrapper at the end of a text are the same. -/
theorem WrittenCloser.unique {closing closing' : List Char} (h : WrittenCloser k [] closing)
    (h' : WrittenCloser k [] closing') (heq : before ++ closing = before' ++ closing') :
    before = before' := by
  rcases List.append_eq_append_iff.mp heq with ⟨t, rfl, ht⟩ | ⟨t, rfl, ht⟩
  · obtain rfl : t = [] := h.eq_nil_of_append h' (.inl rfl) (by rwa [List.append_nil])
    rw [List.append_nil]
  · obtain rfl : t = [] := h'.eq_nil_of_append h (.inl rfl) (by rwa [List.append_nil])
    rw [List.append_nil]

end Finding

/-- A wrapper may be taken off a nested text: neither its head nor its end is found, or both are,
and what stands before the head is nested together with the body. -/
inductive Separable (k : Closer) (text : List Char) : Prop
  | unwritten (hopener : Unopened text) (hcloser : Unclosed k text) : Separable k text
  | written {before opener body closing : List Char}
      (hopens : OpensAt text before opener (body ++ closing))
      (hcloses : WrittenCloser k [] closing) (hnested : Nested (before ++ body)) : Separable k text

section Outcomes

variable {k : Closer} {text before opener rest front closing : List Char}

theorem not_nested_of_opener (h : Nested text) (hopens : OpensAt text before opener rest) :
    ¬Nested (before ++ rest) := by
  intro hrest
  have hcount := h.count_eq
  have hcount' := hrest.count_eq
  have hbraces := hopens.opens.count_braces
  rw [hopens.text_eq] at hcount
  simp only [List.count_append] at hcount hcount'
  omega

theorem not_nested_of_closer (h : Nested (front ++ closing))
    (hcloses : WrittenCloser k [] closing) :
    ¬Nested front := by
  intro hfront
  have hcount := h.count_eq
  have hcount' := hfront.count_eq
  obtain ⟨t, rfl, hpairs, -⟩ := hcloses.exists_brace
  simp only [List.count_append, List.count_cons] at hcount
  simp at hcount
  omega

/-- In a nested text, the end of a wrapper that stands at the end does not start before the first
head. -/
theorem suffix_of_closer (h : Nested text) (hopens : OpensAt text before opener rest)
    (hcloses : WrittenCloser k [] closing) (heq : before ++ rest = front ++ closing) :
    ∃ body, rest = body ++ closing := by
  rcases List.append_eq_append_iff.mp heq with ⟨t, -, ht⟩ | ⟨t, rfl, rfl⟩
  · exact ⟨t, ht⟩
  cases t with
  | nil => exact ⟨[], rfl⟩
  | cons x t =>
      -- the rest of the text does not close the brace of the head
      exfalso
      obtain ⟨t', ht', hpairs, hone⟩ := hcloses.exists_brace
      obtain ⟨rfl, htail⟩ := List.cons.inj ht'
      obtain rfl : t ++ rest = t' := htail
      have hbraces := hopens.opens.count_braces
      rw [hopens.text_eq] at h
      simp only [List.count_append] at hpairs hone
      by_cases hopen : '\x7b' ∈ t
      · -- a brace that is open before the head is due as well, but only one is left
        obtain ⟨u, v, rfl⟩ := List.append_of_mem hopen
        have hsplit : (front ++ '\x7d' :: (u ++ '\x7b' :: v)) ++ (opener ++ rest) =
            (front ++ '\x7d' :: u) ++ ('\x7b' :: (v ++ (opener ++ rest))) := by simp
        rw [hsplit] at h
        obtain ⟨due, -, hdue⟩ := h.exists_due
        have hcount := count_of_dueAfter hdue
        simp only [List.count_append, List.count_cons_self, List.count_nil, List.count_cons_of_ne
          (by decide : '\x7b' ≠ '\x7d')] at hcount hpairs hone
        omega
      · obtain ⟨due, -, hdue⟩ := h.exists_due
        have hcount := count_of_dueAfter hdue
        have hnone := List.count_eq_zero.mpr hopen
        simp only [List.count_append, List.count_nil] at hcount
        omega

/-- The rules for a wrapper keep the brackets of a nested text nested exactly if the wrapper is
separable. -/
theorem nested_unwrapping (h : Nested text) (k : Closer) :
    ∃ r, applyAll (unwrapping k) text = .ok r ∧ (Nested r ↔ Separable k text) := by
  have happly : ∀ {s r}, (removing wrapperOpener).onlyFirst.apply text = .ok s →
      (replacing k.pattern "\n").onlyFirst.apply s = .ok r →
        applyAll (unwrapping k) text = .ok r := by
    intro s r hs hr
    rw [unwrapping, applyAll_cons, hs]
    change applyAll [(replacing k.pattern "\n").onlyFirst] s = _
    rw [applyAll_cons, hr]
    rfl
  have hclosed : ∀ s, Unclosed k s ∨ ∃ front closing, s = front ++ closing ∧
      WrittenCloser k [] closing := by
    intro s
    by_cases hs : Unclosed k s
    · exact .inl hs
    · simp only [Unclosed, not_forall, not_not] at hs
      obtain ⟨front, closing, rfl, hcloses⟩ := hs
      exact .inr ⟨front, closing, rfl, hcloses⟩
  rcases unopened_or_opensAt text with hopener | ⟨before, opener, rest, hopens⟩
  · rcases hclosed text with hcloser | ⟨front, closing, rfl, hcloses⟩
    · exact ⟨text, happly hopener.apply_opener hcloser.apply_closer,
        iff_of_true h (.unwritten hopener hcloser)⟩
    · refine ⟨front ++ ['\n'],
        happly hopener.apply_opener (by simpa using apply_closer hcloses front), ?_⟩
      rw [nested_lineBreak]
      refine iff_of_false (not_nested_of_closer h hcloses) ?_
      rintro (⟨-, hcloser⟩ | ⟨hopens, -, -⟩)
      · exact hcloser front closing rfl hcloses
      · exact hopener _ _ _ hopens.text_eq hopens.opens
  · rcases hclosed (before ++ rest) with hcloser | ⟨front, closing, heq, hcloses⟩
    · refine ⟨before ++ rest, happly hopens.apply_opener hcloser.apply_closer, ?_⟩
      refine iff_of_false (not_nested_of_opener h hopens) ?_
      rintro (⟨hopener, -⟩ | ⟨hopens', hcloses, -⟩)
      · exact hopener _ _ _ hopens.text_eq hopens.opens
      · obtain ⟨rfl, rfl⟩ := hopens.unique hopens'
        exact hcloser _ _ (List.append_assoc ..).symm hcloses
    · obtain ⟨body, rfl⟩ := suffix_of_closer h hopens hcloses heq
      refine ⟨before ++ body ++ ['\n'], happly hopens.apply_opener ?_, ?_⟩
      · rw [← List.append_assoc]
        simpa using apply_closer hcloses (before ++ body)
      · rw [nested_lineBreak]
        refine ⟨.written hopens hcloses, ?_⟩
        rintro (⟨hopener, -⟩ | ⟨hopens', hcloses', hnested⟩)
        · exact absurd hopens.opens (hopener _ _ _ hopens.text_eq)
        · obtain ⟨rfl, heq'⟩ := hopens.unique hopens'
          rwa [hcloses.unique hcloses' heq']

end Outcomes

/-- Where the way in which a wrapper ends is found out, its rules keep the brackets of a nested
script nested exactly if there is no wrapper or the wrapper is separable. -/
theorem nested_unwrapped {text : List Char} (hnested : Nested text) {closer : Option Closer}
    (hcloser : closerOf text = .ok closer) :
    ∃ r, applyAll ((closer.map unwrapping).getD []) text = .ok r ∧
      (Nested r ↔ closerOf text = .ok none ∨ ∃ k, closerOf text = .ok (some k) ∧
        Separable k text) := by
  cases closer with
  | none => exact ⟨text, rfl, iff_of_true hnested (.inl hcloser)⟩
  | some k =>
      obtain ⟨r, hr, hiff⟩ := nested_unwrapping hnested k
      refine ⟨r, hr, hiff.trans ⟨fun h => .inr ⟨k, hcloser, h⟩, ?_⟩⟩
      rintro (hnone | ⟨k', hk', h⟩)
      · rw [hcloser] at hnone
        cases hnone
      · rw [hcloser] at hk'
        cases hk'
        exact h

/-- The wrapper of a script with brackets in its body and in the default for its argument is
separable. -/
theorem nested_unwrapped_default :
    let text := "(function (a) \x7b a.b([c]); \x7d)(d || \x7b\x7d);".toList
    Nested text ∧ closerOf text = .ok (some .outside) ∧ Separable .outside text := by
  have hnested : Nested "(function (a) \x7b a.b([c]); \x7d)(d || \x7b\x7d);".toList := by
    decide +kernel
  have hcloser : closerOf "(function (a) \x7b a.b([c]); \x7d)(d || \x7b\x7d);".toList =
      .ok (some .outside) := by
    decide +kernel
  have hresult :
      applyAll (unwrapping .outside) "(function (a) \x7b a.b([c]); \x7d)(d || \x7b\x7d);".toList =
      .ok " a.b([c]); \n".toList := by
    decide +kernel
  obtain ⟨r, hr, hiff⟩ := nested_unwrapped hnested hcloser
  obtain rfl : " a.b([c]); \n".toList = r := Except.ok.inj (hresult.symm.trans hr)
  rcases hiff.mp (by decide) with hnone | ⟨k, hk, h⟩
  · rw [hcloser] at hnone
    cases hnone
  · rw [hcloser] at hk
    cases hk
    exact ⟨hnested, hcloser, h⟩

/-- Of two functions in a row, the first one loses its head and the second one its end. -/
theorem functions_cut_open :
    let text := "(function () \x7b\n\tvar a = 1;\n\x7d)();\n".toList ++
      "(function () \x7b\n\tvar b = 2;\n\x7d)();\n".toList
    let result := "\n\tvar a = 1;\n\x7d)();\n(function () \x7b\n\tvar b = 2;\n\n".toList
    (text.all fun x => x ∉ ['\x22', '\x27', '\x60', '/']) = true ∧ Nested text ∧
      closerOf text = .ok (some .outside) ∧ applyAll (unwrapping .outside) text = .ok result ∧
        ¬Nested result := by
  decide +kernel

end ScriptModules.Rule
