import ScriptModules.Proofs.Export.Statement
import ScriptModules.Proofs.Pattern.Cuts
import ScriptModules.Proofs.Pattern.Exchange
import ScriptModules.Proofs.Pattern.Loops
import ScriptModules.Proofs.Rule.NamespaceFree

/-!
# Links of a chain

A link assigns to a member of the namespace, and links one after the other form a chain. Where a
chain assigns a function, the signature takes the longest chain that starts there, however many ways
there are to read blanks and however the namespace is called. The members are read off a chain in
order.
-/

namespace ScriptModules

open Pattern Pattern.Node Text

/-- The text of a link to a member of the namespace, with the blanks before and after its equals
sign. -/
def linkText (namespaceName : String) (name before after : List Char) : List Char :=
  namespaceName.toList ++ '.' :: (name ++ (before ++ '=' :: after))

/-- The text consists of links to the given members and of `tail` after them. -/
inductive Links (namespaceName : String) (tail : List Char) : List Char → List (List Char) → Prop
  | nil : Links namespaceName tail tail []
  | cons {name before after text : List Char} {names : List (List Char)} (hname : IsIdentifier name)
      (hbefore : ∀ x ∈ before, isBlank x = true) (hafter : ∀ x ∈ after, isBlank x = true)
      (hrest : Links namespaceName tail text names) :
      Links namespaceName tail (linkText namespaceName name before after ++ text) (name :: names)

/-- The text starts with links to the given members and the keyword of a function, as a whole word
before `rest`. -/
def Chained (namespaceName : String) (text : List Char) (names : List (List Char))
    (rest : List Char) : Prop :=
  rest.head?.any isWord = false ∧ Links namespaceName ("function".toList ++ rest) text names

/-- The text starts with a link to the member in a chain that assigns a function. -/
def Assigns (namespaceName : String) (name text : List Char) : Prop :=
  ∃ names rest, Chained namespaceName text (name :: names) rest

section Texts

variable {namespaceName : String} {name before after text tail rest : List Char}
  {names : List (List Char)} {left : Option Char}

theorem any_lastOf_blank {s : List Char} (hleft : left.any isIdent = false)
    (hs : ∀ x ∈ s, isBlank x = true) :
    (lastOf left s).any isIdent = false := by
  rcases List.eq_nil_or_concat' s with rfl | ⟨s, x, rfl⟩
  · exact hleft
  · simpa using isIdent_of_isBlank (hs x (by simp))

/-- A link does not end in a name. -/
theorem any_lastOf_linkText (hafter : ∀ x ∈ after, isBlank x = true) :
    (lastOf left (linkText namespaceName name before after)).any isIdent = false := by
  simp only [linkText, lastOf_append, lastOf_cons]
  exact any_lastOf_blank (by decide) hafter

theorem not_isIdent_head_blank {blank : List Char} (hblank : ∀ x ∈ blank, isBlank x = true)
    (rest : List Char) :
    ∀ x ∈ (blank ++ '=' :: rest).head?, isIdent x = false := by
  intro x hx
  cases blank with
  | nil =>
      obtain rfl : '=' = x := by simpa using hx
      decide
  | cons y blank =>
      obtain rfl : y = x := by simpa using hx
      exact isIdent_of_isBlank (hblank y (by simp))

/-- A text is a link in one way, up to the blanks after the equals sign. -/
theorem linkText_inj {name' before' after' rest' : List Char} (hname : IsIdentifier name)
    (hname' : IsIdentifier name') (hbefore : ∀ x ∈ before, isBlank x = true)
    (hbefore' : ∀ x ∈ before', isBlank x = true)
    (h : linkText namespaceName name before after ++ rest =
      linkText namespaceName name' before' after' ++ rest') :
    name = name' ∧ before = before' ∧ after ++ rest = after' ++ rest' := by
  simp only [linkText, List.append_assoc, List.cons_append, List.append_cancel_left_eq,
    List.cons.injEq, true_and] at h
  have hrun := congrArg (List.takeWhile isIdent) h
  rw [takeWhile_append_of_head hname.2 (not_isIdent_head_blank hbefore _),
    takeWhile_append_of_head hname'.2 (not_isIdent_head_blank hbefore' _)] at hrun
  subst hrun
  have hblanks := congrArg (List.takeWhile isBlank) (List.append_cancel_left h)
  rw [takeWhile_append_of_head hbefore (by simp [isBlank]),
    takeWhile_append_of_head hbefore' (by simp [isBlank])]
    at hblanks
  subst hblanks
  exact ⟨rfl, rfl, by simpa using h⟩

theorem Links.append (h : Links namespaceName tail text names) (rest : List Char) :
    Links namespaceName (tail ++ rest) (text ++ rest) names := by
  induction h with
  | nil => exact .nil
  | cons hname hbefore hafter _ ih =>
      rw [List.append_assoc]
      exact .cons hname hbefore hafter ih

theorem Links.exists_append (h : Links namespaceName (tail ++ rest) text names) :
    ∃ w, text = w ++ rest ∧ Links namespaceName tail w names := by
  induction h with
  | nil => exact ⟨tail, rfl, .nil⟩
  | cons hname hbefore hafter _ ih =>
      obtain ⟨w, rfl, hw⟩ := ih
      exact ⟨_, (List.append_assoc ..).symm, .cons hname hbefore hafter hw⟩

theorem Links.trans {names' : List (List Char)} {tail' : List Char}
    (h : Links namespaceName tail text names) (h' : Links namespaceName tail' tail names') :
    Links namespaceName tail' text (names ++ names') := by
  induction h with
  | nil => exact h'
  | cons hname hbefore hafter _ ih => exact .cons hname hbefore hafter ih

theorem Links.length_le (h : Links namespaceName tail text names) :
    tail.length + names.length ≤ text.length := by
  induction h with
  | nil => simp
  | cons _ _ _ _ ih =>
      simp only [linkText, List.length_append, List.length_cons]
      omega

/-- Links before the keyword of a function end in its last letter. -/
theorem Links.lastOf_function (h : Links namespaceName "function".toList text names)
    (left : Option Char) :
    lastOf left text = some 'n' := by
  induction h generalizing left with
  | nil => rfl
  | cons _ _ _ _ ih => rw [lastOf_append, ih]

/-- Links start with no blank, if what comes after them does not. -/
theorem Links.isBlank_head (hne : namespaceName ≠ "")
    (hident : ∀ x ∈ namespaceName.toList, isIdent x = true)
    (htail : ∀ x ∈ tail.head?, isBlank x = false) (h : Links namespaceName tail text names) :
    ∀ x ∈ text.head?, isBlank x = false := by
  cases h with
  | nil => exact htail
  | cons _ _ _ _ =>
      obtain ⟨y, rest, hy⟩ :=
        List.exists_cons_of_ne_nil (show namespaceName.toList ≠ [] by simpa using hne)
      intro x hx
      obtain rfl : y = x := by simpa [linkText, hy] using hx
      exact isBlank_of_isIdent (hident y (by simp [hy]))

/-- The member that a text declares is determined. -/
theorem Assigns.name_eq {name' : List Char} (h : Assigns namespaceName name text)
    (h' : Assigns namespaceName name' text) : name = name' := by
  obtain ⟨names, rest, -, hlinks⟩ := h
  obtain ⟨names', rest', -, hlinks'⟩ := h'
  generalize htext : text = text' at hlinks'
  cases hlinks with
  | cons hname hbefore _ _ =>
      cases hlinks' with
      | cons hname' hbefore' _ _ => exact (linkText_inj hname hname' hbefore hbefore' htext).1

/-- The chain in which a member is declared can be continued until no link starts at the keyword of
its function. -/
theorem Assigns.exists_longest (h : Assigns namespaceName name text) :
    ∃ w names rest, text = w ++ rest ∧ Links namespaceName "function".toList w (name :: names) ∧
      rest.head?.any isWord = false ∧
        ∀ name, ¬Assigns namespaceName name ("function".toList ++ rest) := by
  obtain ⟨names, rest, hrest, hlinks⟩ := h
  induction hlength : rest.length using Nat.strongRecOn generalizing names rest with
  | ind k ih =>
      by_cases hmore : ∃ name, Assigns namespaceName name ("function".toList ++ rest)
      · obtain ⟨name', names', rest', hrest', hlinks'⟩ := hmore
        have hshorter := hlinks'.length_le
        simp only [List.length_append, List.length_cons] at hshorter
        exact ih rest'.length (by omega) _ rest' hrest' (hlinks.trans hlinks') rfl
      · obtain ⟨w, rfl, hw⟩ := hlinks.exists_append
        exact ⟨w, names, rest, rfl, hw, hrest, not_exists.mp hmore⟩

theorem Assigns.exists_eq (h : Assigns namespaceName name text) :
    ∃ rest, text = namespaceName.toList ++ '.' :: rest := by
  obtain ⟨names, rest, -, hlinks⟩ := h
  cases hlinks with
  | cons _ _ _ _ => exact ⟨_, List.append_assoc ..⟩

theorem Assigns.dot_mem (h : Assigns namespaceName name text) : '.' ∈ text := by
  obtain ⟨rest, rfl⟩ := h.exists_eq
  simp

end Texts

section Signatures

variable {namespaceName : String} {name before after text tail rest : List Char}
  {names : List (List Char)} {c d : Cursor}

theorem takes_member (hleft : c.before.head?.any isIdent = false)
    (hc : c.after = namespaceName.toList ++ '.' :: rest) :
    (Signature.member namespaceName).Takes c (c.beyond (namespaceName.toList ++ ['.'])) := by
  have hdot := Cursor.after_beyond hc
  rw [← Cursor.beyond_beyond]
  exact (takes_notBehind (by rwa [CharSet.contains_ident_eq])).seq
    ((takes_word hc).seq (takes_char hdot))

theorem takes_blanks {blank : List Char} (hblank : ∀ x ∈ blank, isBlank x = true)
    (hrest : ∀ x ∈ rest.head?, isBlank x = false) (hc : c.after = blank ++ rest) :
    blanks.Takes c (c.beyond blank) :=
  takes_many_set hc (by simpa using hblank) (by simpa using hrest)

theorem advances_link (namespaceName : String) : (Signature.link namespaceName).Advances :=
  advances_seq_left (advances_member namespaceName)

theorem advances_classic (namespaceName : String) : (Signature.classic namespaceName).Advances := by
  refine advances_seq_right (advances_seq_left (advances_word ?_))
  decide

theorem advances_target (namespaceName : String) : (Signature.target namespaceName).Advances :=
  advances_seq_left (advances_member namespaceName)

/-- A way of a link passes over the text of one. -/
theorem exists_of_mem_ways_link (h : d ∈ (Signature.link namespaceName).ways c) :
    c.before.head?.any isIdent = false ∧ ∃ name before after, IsIdentifier name ∧
      (∀ x ∈ before, isBlank x = true) ∧
      (∀ x ∈ after, isBlank x = true) ∧ c.after =
        linkText namespaceName name before after ++ d.after ∧
      d = c.beyond (linkText namespaceName name before after) := by
  obtain ⟨c₁, hmember, h⟩ := mem_ways_seq.mp h
  obtain ⟨c₂, hname, h⟩ := mem_ways_seq.mp h
  obtain ⟨c₃, hbefore, h⟩ := mem_ways_seq.mp h
  obtain ⟨c₄, hequals, hafter⟩ := mem_ways_seq.mp h
  obtain ⟨hleft, h₁, rfl⟩ := mem_ways_member.mp hmember
  obtain ⟨name, hne, h₂, hident, rfl⟩ := mem_ways_oneOrMore_set.mp hname
  obtain ⟨before, h₃, hblank, rfl⟩ := mem_ways_many_set.mp hbefore
  obtain ⟨h₄, rfl⟩ := mem_ways_char.mp hequals
  obtain ⟨after, h₅, hblank', rfl⟩ := mem_ways_many_set.mp hafter
  have hlead :=
    (Cursor.leads_beyond h₁).trans ((Cursor.leads_beyond h₂).trans ((Cursor.leads_beyond h₃).trans
    ((Cursor.leads_beyond h₄).trans (Cursor.leads_beyond h₅))))
  refine ⟨hleft, name, before, after, ⟨hne, by simpa using hident⟩, by simpa using hblank,
    by simpa using hblank', ?_, ?_⟩
  · simpa [linkText] using hlead.after
  · simp [linkText]

/-- A link is taken with all blanks after it. -/
theorem takes_link (hname : IsIdentifier name) (hbefore : ∀ x ∈ before, isBlank x = true)
    (hafter : ∀ x ∈ after, isBlank x = true) (hleft : c.before.head?.any isIdent = false)
    (hrest : ∀ x ∈ rest.head?, isBlank x = false)
    (hc : c.after = linkText namespaceName name before after ++ rest) :
    (Signature.link namespaceName).Takes c
      (c.beyond (linkText namespaceName name before after)) := by
  have h₁ : c.after = (namespaceName.toList ++ ['.']) ++
      (name ++ (before ++ '=' :: (after ++ rest))) := by
    simpa [linkText] using hc
  have h₂ := Cursor.after_beyond h₁
  have h₃ := Cursor.after_beyond h₂
  have h₄ := Cursor.after_beyond h₃
  have h₅ := Cursor.after_beyond (s := ['=']) h₄
  have hrun := takes_identifier h₂ hname (not_isIdent_head_blank hbefore _)
  have hblanks : blanks.Takes _ _ := takes_blanks hbefore (by simp [isBlank]) h₃
  have hlink : (Signature.link namespaceName).Takes c _ :=
    (takes_member hleft (by simpa using h₁)).seq
    (hrun.seq (hblanks.seq ((takes_char h₄).seq (takes_blanks hafter hrest h₅))))
  simpa [linkText] using hlink

/-- Before a pattern that starts with no blank, a link has to be taken whole. -/
theorem takes_link_seq {n : Node}
    (hn : ∀ {c d : Cursor}, d ∈ n.ways c → ∀ x ∈ c.after.head?, isBlank x = false)
    (hname : IsIdentifier name) (hbefore : ∀ x ∈ before, isBlank x = true)
    (hafter : ∀ x ∈ after, isBlank x = true) (hleft : c.before.head?.any isIdent = false)
    (hc : c.after = linkText namespaceName name before after ++ rest)
    (hnext : n.Takes (c.beyond (linkText namespaceName name before after)) d) :
    ((Signature.link namespaceName).seq n).Takes c d := by
  have hrest := hn (List.mem_of_mem_head? hnext)
  rw [Cursor.after_beyond hc] at hrest
  have htakes := takes_link hname hbefore hafter hleft hrest hc
  refine Takes.seq_of_forall (List.mem_of_mem_head? htakes) hnext fun f hf => ?_
  obtain ⟨-, name', before', after', hname', hbefore', hafter', hc', hf⟩ :=
    exists_of_mem_ways_link hf
  obtain ⟨rfl, rfl, hsplit⟩ := linkText_inj hname hname' hbefore hbefore' (hc.symm.trans hc')
  rcases List.append_eq_append_iff.mp hsplit with ⟨t, rfl, hr⟩ | ⟨t, rfl, hr⟩
  · cases t with
    | nil => exact .inl (by simpa using hf)
    | cons x t =>
        -- no blank is left to take
        have hsolid := hrest x (by simp [hr])
        simp [hafter' x (by simp)] at hsolid
  · cases t with
    | nil => exact .inl (by simpa using hf)
    | cons x t =>
        refine .inr (List.eq_nil_iff_forall_not_mem.mpr fun e he => ?_)
        have hsolid := hn he x (by simp [hr])
        simp [hafter x (by simp)] at hsolid

/-- The keyword of a function, as a whole word. -/
abbrev Signature.functionWord : Node := sequence [word "function", wordEdge]

/-- Links, in any number, and the keyword of a function. -/
abbrev Signature.linkedFunction (namespaceName : String) : Node :=
  (many (Signature.link namespaceName)).seq Signature.functionWord

theorem passes_functionWord (h : d ∈ Signature.functionWord.ways c) :
    d.after.head?.any isWord = false ∧ c.after = "function".toList ++ d.after := by
  obtain ⟨e, hword, hedge⟩ := mem_ways_seq.mp h
  obtain ⟨hholds, rfl⟩ := mem_ways_anchor.mp hedge
  refine ⟨?_, (passes_word hword).1⟩
  obtain ⟨-, rfl⟩ := mem_ways_word.mp hword
  have hbefore : (c.beyond "function".toList).before.head?.any isWord = true := by
    rw [head?_before_beyond]
    exact any_lastOf (by decide) (List.all_eq_true.mp (by decide))
  rw [Cursor.holds_boundary, hbefore] at hholds
  simpa using hholds

theorem takes_functionWord (hrest : rest.head?.any isWord = false)
    (hc : c.after = "function".toList ++ rest) :
    Signature.functionWord.Takes c (c.beyond "function".toList) := by
  refine (takes_word hc).seq (takes_anchor ?_)
  rw [Cursor.holds_boundary, head?_before_beyond, Cursor.after_beyond hc, hrest]
  rfl

theorem chained_of_mem_ways (h : d ∈ (Signature.linkedFunction namespaceName).ways c) :
    ∃ names, Chained namespaceName c.after names d.after := by
  obtain ⟨e, he, hfunction⟩ := mem_ways_seq.mp h
  have hreaches := (mem_ways_many (advances_link namespaceName)).mp he
  clear h he
  induction hreaches using Relation.ReflTransGen.head_induction_on with
  | refl =>
      obtain ⟨hrest, hafter⟩ := passes_functionWord hfunction
      exact ⟨[], hrest, hafter ▸ .nil⟩
  | @head c f hturn _ ih =>
      obtain ⟨-, name, before, after, hname, hbefore, hafter, hc, -⟩ :=
        exists_of_mem_ways_link hturn
      obtain ⟨names, hrest, hlinks⟩ := ih
      exact ⟨name :: names, hrest, hc ▸ .cons hname hbefore hafter hlinks⟩

theorem ways_classic (namespaceName : String) (c : Cursor) :
    (Signature.classic namespaceName).ways c =
    ((Signature.link namespaceName).seq (Signature.linkedFunction namespaceName)).ways c :=
  ways_oneOrMore_seq c

/-- Where the signature leads on, a chain starts. -/
theorem assigns_of_mem_ways (h : d ∈ (Signature.classic namespaceName).ways c) :
    c.before.head?.any isIdent = false ∧ ∃ name, Assigns namespaceName name c.after := by
  rw [ways_classic] at h
  obtain ⟨e, hlink, hnext⟩ := mem_ways_seq.mp h
  obtain ⟨hleft, name, before, after, hname, hbefore, hafter, hc, -⟩ :=
    exists_of_mem_ways_link hlink
  obtain ⟨names, hrest, hlinks⟩ := chained_of_mem_ways hnext
  exact ⟨hleft, name, names, d.after, hrest, hc ▸ .cons hname hbefore hafter hlinks⟩

/-- What starts with a member of the namespace does not match without a dot. -/
theorem ways_member_eq_nil (hdot : '.' ∉ c.after) :
    (Signature.member namespaceName).ways c = [] := by
  rw [List.eq_nil_iff_forall_not_mem]
  intro d hd
  obtain ⟨-, hstart, -⟩ := mem_ways_member.mp hd
  exact hdot (hstart.subset (by simp))

theorem matchAt_target_eq_none (h : (Signature.member namespaceName).ways c.fresh = []) :
    (Signature.target namespaceName).matchAt false c = none := by
  rw [matchAt_eq_none_iff, Signature.target, Node.sequence, ways, h]
  · rfl
  · simp

/-- A member that is assigned to is read as the first group, up to the equals sign. -/
theorem exists_takes_target (hname : IsIdentifier name) (hbefore : ∀ x ∈ before, isBlank x = true)
    (hleft : c.before.head?.any isIdent = false)
    (hc : c.after = linkText namespaceName name before after ++ rest) :
    ∃ d, (Signature.target namespaceName).Takes c d ∧ d.groups = (1, name) :: c.groups ∧
      d.after = after ++ rest ∧
      d.before.head? = some '=' := by
  have h₁ : c.after = (namespaceName.toList ++ ['.']) ++
      (name ++ (before ++ '=' :: (after ++ rest))) := by
    simpa [linkText] using hc
  have h₂ := Cursor.after_beyond h₁
  obtain ⟨e, hgroup, h₃, hgroups⟩ := exists_takes_group 1
    (takes_identifier h₂ hname (not_isIdent_head_blank hbefore _)) h₂
  have h₄ := Cursor.after_beyond h₃
  have hblanks : blanks.Takes e _ := takes_blanks hbefore (by simp [isBlank]) h₃
  refine ⟨_, (takes_member hleft (by simpa using h₁)).seq
    (hgroup.seq (hblanks.seq (takes_char h₄))), hgroups, ?_, rfl⟩
  exact Cursor.after_beyond (s := ['=']) h₄

section Taking

variable (hne : namespaceName ≠ "") (hident : ∀ x ∈ namespaceName.toList, isIdent x = true)

include hne hident

theorem isBlank_head_of_mem_ways (h : d ∈ (Signature.linkedFunction namespaceName).ways c) :
    ∀ x ∈ c.after.head?, isBlank x = false := by
  obtain ⟨names, -, hlinks⟩ := chained_of_mem_ways h
  refine hlinks.isBlank_head hne hident fun x hx => ?_
  obtain rfl : 'f' = x := by simpa using hx
  decide

/-- Links are taken up to the keyword of the function, if no link starts at the keyword. -/
theorem takes_linkedFunction {w : List Char}
    (hlinks : Links namespaceName "function".toList w names) (hrest : rest.head?.any isWord = false)
    (hfinal : ∀ name, ¬Assigns namespaceName name ("function".toList ++ rest))
    (hleft : c.before.head?.any isIdent = false) (hc : c.after = w ++ rest) :
    (Signature.linkedFunction namespaceName).Takes c (c.beyond w) := by
  induction hlinks generalizing c with
  | nil =>
      have hnone :
          ((Signature.link namespaceName).seq (Signature.linkedFunction namespaceName)).ways c =
            [] := by
        rw [← ways_classic, List.eq_nil_iff_forall_not_mem]
        intro d hd
        obtain ⟨-, name, hassigns⟩ := assigns_of_mem_ways hd
        exact hfinal name (hc ▸ hassigns)
      rw [Takes, ways_many_seq (advances_link namespaceName), hnone, List.nil_append]
      exact takes_functionWord hrest hc
  | @cons name before after w names hname hbefore hafter _ ih =>
      rw [List.append_assoc] at hc
      have hnext := ih (c := c.beyond (linkText namespaceName name before after))
        (by rw [head?_before_beyond]; exact any_lastOf_linkText hafter) (Cursor.after_beyond hc)
      have htakes :=
        takes_link_seq (isBlank_head_of_mem_ways hne hident) hname hbefore hafter hleft hc hnext
      rw [Takes, ways_many_seq (advances_link namespaceName), List.head?_append, htakes,
        Cursor.beyond_beyond]
      rfl

/-- The signature takes a chain, if no link starts at the keyword of its function. -/
theorem takes_classic {w : List Char}
    (hlinks : Links namespaceName "function".toList w (name :: names))
    (hrest : rest.head?.any isWord = false)
    (hfinal : ∀ name, ¬Assigns namespaceName name ("function".toList ++ rest))
    (hleft : c.before.head?.any isIdent = false) (hc : c.after = w ++ rest) :
    (Signature.classic namespaceName).Takes c (c.beyond w) := by
  rw [Takes, ways_classic]
  cases hlinks with
  | @cons _ before after w _ hname hbefore hafter hlinks =>
      rw [List.append_assoc] at hc
      have hleft' : (c.beyond (linkText namespaceName name before after)).before.head?.any isIdent =
          false := by
        rw [head?_before_beyond]
        exact any_lastOf_linkText hafter
      have hnext :=
        takes_linkedFunction hne hident hlinks hrest hfinal hleft' (Cursor.after_beyond hc)
      rw [Cursor.beyond_beyond] at hnext
      exact takes_link_seq (isBlank_head_of_mem_ways hne hident) hname hbefore hafter hleft hc hnext

/-- Where a chain starts, the signature takes the longest one. -/
theorem exists_takes_classic (hleft : c.before.head?.any isIdent = false)
    (h : Assigns namespaceName name c.after) :
    ∃ w names rest, c.after = w ++ rest ∧ Links namespaceName "function".toList w (name :: names) ∧
      rest.head?.any isWord = false ∧
        (∀ name, ¬Assigns namespaceName name ("function".toList ++ rest)) ∧
      (Signature.classic namespaceName).Takes c (c.beyond w) := by
  obtain ⟨w, names, rest, hc, hlinks, hrest, hfinal⟩ := h.exists_longest
  exact ⟨w, names, rest, hc, hlinks, hrest, hfinal,
    takes_classic hne hident hlinks hrest hfinal hleft hc⟩

theorem ways_member_of_blank {x : Char} (hx : isBlank x = true) (hc : c.after = x :: rest) :
    (Signature.member namespaceName).ways c = [] := by
  rw [List.eq_nil_iff_forall_not_mem]
  intro d hd
  obtain ⟨-, ⟨r, hr⟩, -⟩ := mem_ways_member.mp hd
  obtain ⟨y, name, hy⟩ :=
    List.exists_cons_of_ne_nil (show namespaceName.toList ≠ [] by simpa using hne)
  rw [hy, hc] at hr
  have hname := hident x (by rw [hy, ← (List.cons.inj hr).1]; simp)
  rw [isIdent_of_isBlank hx] at hname
  cases hname

/-- The members that links assign to are read in order. -/
theorem matchesAt_target (hdot : '.' ∉ tail) (hlinks : Links namespaceName tail text names)
    (hleft : c.before.head?.any isIdent = false) (hc : c.after = text) :
    ((Signature.target namespaceName).matchesAt c).map (·.group 1) = names := by
  have hn := advances_target namespaceName
  induction hlinks generalizing c with
  | nil =>
      rw [matchesAt_eq_nil hn fun a b hab => ?_]
      · rfl
      · refine matchAt_target_eq_none (ways_member_eq_nil ?_)
        rw [Cursor.after_fresh, Cursor.after_beyond hab]
        intro hmem
        exact hdot (by rw [show tail = a ++ b from hc.symm.trans hab]; simp [hmem])
  | @cons name before blank text names hname hbefore hblank _ ih =>
      obtain ⟨d, hd, hgroups, hafter, hequals⟩ :=
        exists_takes_target (c := c.fresh) hname hbefore hleft hc
      rw [matchesAt_found hn hd.matchAt, List.map_cons, Match.group_eq_lookup hgroups]
      -- the blanks after the equals sign lead to the next link
      rw [matchesAt_skips hn hafter fun a x b hab => matchAt_target_eq_none
        (ways_member_of_blank hne hident (hblank x (by simp [hab]))
        (Cursor.after_beyond (by rw [hafter, hab, List.append_assoc]; rfl)))]
      congr 1
      refine ih ?_ (Cursor.after_beyond hafter)
      rw [head?_before_beyond, hequals]
      exact any_lastOf_blank (by decide) hblank

theorem groupTexts_target (hdot : '.' ∉ tail) (hlinks : Links namespaceName tail text names) :
    (Signature.target namespaceName).groupTexts 1 text = names := by
  rw [groupTexts, allMatches_eq_matchesAt (advances_target namespaceName)]
  exact matchesAt_target hne hident hdot hlinks rfl rfl

end Taking

end Signatures

end ScriptModules
