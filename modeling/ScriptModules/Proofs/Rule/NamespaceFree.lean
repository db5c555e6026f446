import ScriptModules.Proofs.Rule.Apply

/-!
# No reference to the namespace is left

A reference to the namespace is its name with the dot, where no identifier character stands right
before. Dropping the namespace takes all of them away at once: what a removal joins can only start
after a character that is no part of an identifier, so no new reference comes about. Declarations of
a name by itself are removed at the edge of a word, and that removal joins none either.
-/

namespace ScriptModules

open Pattern

/-- Wherever the text holds `w`, an identifier character stands right before it; `left` is the
character before the text. -/
def BoundAfter (left : Option Char) (w text : List Char) : Prop :=
  ∀ p q, text = p ++ (w ++ q) → (p.getLast?.or left).any Text.isIdent = true

/-- What stands before the first character of a text says whether `w` is bound at its start. -/
theorem boundAfter_cons {left : Option Char} {w text : List Char} {x : Char}
    (hstart : w <+: x :: text → left.any Text.isIdent = true) (h : BoundAfter (some x) w text) :
    BoundAfter left w (x :: text) := by
  intro p q hsplit
  cases p with
  | nil => exact hstart ⟨q, hsplit.symm⟩
  | cons y p =>
      rw [List.cons_append, List.cons.injEq] at hsplit
      obtain ⟨rfl, htext⟩ := hsplit
      have hlast := h p q htext
      cases hp : p.getLast? with
      | none => simpa [List.getLast?_cons, hp] using hlast
      | some z => simpa [List.getLast?_cons, hp] using hlast

/-- A pattern that looks at the character before it has no match after a character that it
refuses. -/
theorem matchAt_eq_none_of_before {n : Node} {p : Char → Bool}
    (hn : ∀ {c d : Cursor}, d ∈ n.ways c → c.before.head?.any p = false) (c : Cursor)
    (hc : c.before.head?.any p = true) : n.matchAt false c = none := by
  rw [Node.matchAt_eq_none_iff, List.eq_nil_iff_forall_not_mem]
  intro d hd
  have hbefore := hn hd
  rw [Cursor.before_fresh, hc] at hbefore
  cases hbefore

/-- Removal keeps `w` bound if it keeps a relation between the cursor and the character that was
copied last, and that relation binds `w` wherever it stands after the cursor. -/
theorem boundAfter_removed {n : Node} {p : Char → Bool} {w : List Char} {y : Char}
    (keeps : Cursor → Option Char → Prop) (hn : n.Advances)
    (hp : ∀ c : Cursor, c.before.head?.any p = true → n.matchAt false c = none)
    (hw : ∀ x ∈ w, p x = true)
    (hfound : ∀ {c m left}, n.matchAt false c = some m → keeps c left → keeps m.last left)
    (hskipped : ∀ {c x rest left}, c.after = x :: rest → keeps c left →
      keeps (c.beyond [x]) (some x))
    (hstart : ∀ {c left}, n.matchAt false c = none → keeps c left → w ++ [y] <+: c.after →
      left.any Text.isIdent = true)
    (c : Cursor) (left : Option Char) (hc : keeps c left) :
    BoundAfter left (w ++ [y]) (n.replacedAt (fun _ => []) c) := by
  induction c using Node.scan_induction hn generalizing left with
  | found c m hm ih =>
      rw [Node.replacedAt_found hn hm]
      exact ih left (hfound hm hc)
  | skipped c x rest hm hx ih =>
      have hrest := ih (some x) (hskipped hx hc)
      have hcopy := Node.replacedAt_skipped (f := fun _ => []) hn hm hx
      rw [hcopy]
      refine boundAfter_cons ?_ hrest
      rintro ⟨q, hq⟩
      rw [← hcopy] at hq
      have hprefix :=
        Node.prefix_of_replacedAt hn hp hw hm (hq.symm.trans (List.append_assoc w [y] q))
      exact hstart hm hc hprefix
  | finished c hm hx =>
      rw [Node.replacedAt_finished hm hx]
      intro p q hsplit
      simp at hsplit

theorem mem_ways_member {namespaceName : String} {c d : Cursor} :
    d ∈ (Signature.member namespaceName).ways c ↔ c.before.head?.any Text.isIdent = false ∧
      namespaceName.toList ++ ['.'] <+: c.after ∧ d = c.beyond (namespaceName.toList ++ ['.']) := by
  simp only [Signature.member, Node.sequence, Node.notAfterIdent, Node.mem_ways_seq,
    Node.mem_ways_notBehind, Node.mem_ways_word, Node.mem_ways_char, CharSet.contains_ident_eq]
  constructor
  · rintro ⟨_, ⟨hleft, rfl⟩, _, ⟨⟨rest, hname⟩, rfl⟩, ⟨rest', hdot⟩, rfl⟩
    rw [Cursor.after_beyond hname.symm] at hdot
    exact ⟨hleft, ⟨rest', by rw [← hname, ← hdot, List.append_assoc]⟩, by rw [Cursor.beyond_beyond]⟩
  · rintro ⟨hleft, ⟨rest, hname⟩, rfl⟩
    rw [List.append_assoc] at hname
    refine ⟨c, ⟨hleft, rfl⟩, _, ⟨⟨_, hname⟩, rfl⟩, ⟨rest, ?_⟩, by rw [Cursor.beyond_beyond]⟩
    exact (Cursor.after_beyond hname.symm).symm

theorem advances_member (namespaceName : String) : (Signature.member namespaceName).Advances := by
  intro c d h
  obtain ⟨-, -, rfl⟩ := mem_ways_member.mp h
  simp [Cursor.beyond]

/-- Dropping the namespace leaves no reference to it. -/
theorem boundAfter_member_removed {namespaceName : String}
    (hname : ∀ x ∈ namespaceName.toList, Text.isIdent x = true) (text : List Char) :
    BoundAfter none (namespaceName.toList ++ ['.'])
      ((Signature.member namespaceName).remove text) := by
  have hn := advances_member namespaceName
  rw [Node.remove, Node.replace_eq_replacedAt hn]
  -- the last copied character and the one before the cursor differ only after a removal, and then
  -- neither belongs to an identifier
  refine boundAfter_removed (p := Text.isIdent)
    (fun c left => left.any Text.isIdent = c.before.head?.any Text.isIdent) hn ?_ hname
      ?_ ?_ ?_ _ _ rfl
  · exact matchAt_eq_none_of_before fun h => (mem_ways_member.mp h).1
  · intro c m left hm hleft
    obtain ⟨hbefore, -, hlast⟩ := mem_ways_member.mp (Node.matchAt_sound hm).2
    have hdot : Text.isIdent '.' = false := by decide
    rw [hleft, hlast]
    simpa [hdot] using hbefore
  · intro c x rest left _ _
    simp
  · intro c left hm hleft hprefix
    rw [hleft]
    by_contra hbefore
    have hway : c.fresh.beyond _ ∈ (Signature.member namespaceName).ways c.fresh :=
      mem_ways_member.mpr ⟨Bool.eq_false_iff.mpr hbefore, hprefix, rfl⟩
    rw [Node.matchAt_eq_none_iff.mp hm] at hway
    cases hway

theorem advances_selfDeclaration : Rule.selfDeclaration.Advances :=
  Node.advances_seq_right (Node.advances_seq_left (Node.advances_word (by decide)))

/-- A keyword that stands here starts at the edge of a word if no word character is before it. -/
theorem holds_boundary_var {c : Cursor} {rest : List Char} (hc : c.after = "var".toList ++ rest) :
    c.holds (.boundary .unicode) = true ↔ c.before.head?.any Text.isWord = false := by
  have hkeyword : c.after.head?.any Text.isWord = true := by
    rw [hc]
    exact (by decide : Text.isWord 'v' = true)
  rw [Cursor.holds_boundary, hkeyword]
  simp

/-- A declaration of a name by itself starts with its keyword at the edge of a word and ends with
its semicolon. -/
theorem selfDeclaration_ends {c d : Cursor} (h : d ∈ Rule.selfDeclaration.ways c) :
    c.before.head?.any Text.isWord = false ∧ d.before.head? = some ';' := by
  simp only [Rule.selfDeclaration, Node.sequence, Node.wordEdge, Node.mem_ways_seq,
    Node.mem_ways_anchor, Node.mem_ways_word, Node.mem_ways_char] at h
  obtain ⟨_, ⟨hedge, rfl⟩, _, ⟨⟨rest, hvar⟩, rfl⟩, _, _, _, _, _, _, _, _, _, _, _, _, -, rfl⟩ := h
  exact ⟨(holds_boundary_var hvar.symm).mp hedge, rfl⟩

/-- Removing declarations of a name by itself leaves a word bound that was bound before. -/
theorem boundAfter_selfDeclaration_removed {w : List Char} {y : Char}
    (hw : ∀ x ∈ w, Text.isWord x = true) {text : List Char}
    (htext : BoundAfter none (w ++ [y]) text) :
    BoundAfter none (w ++ [y]) (Rule.selfDeclaration.remove text) := by
  have hn := advances_selfDeclaration
  rw [Node.remove, Node.replace_eq_replacedAt hn]
  -- the cursor moves through the bound text; the last copied character is the one before the
  -- cursor, or a declaration was removed between them, which starts at the edge of a word and ends
  -- with a semicolon
  refine boundAfter_removed (p := Text.isWord)
    (fun c left => c.text = text ∧ (left = c.before.head? ∨
      (left.any Text.isWord = false ∧ c.before.head? = some ';'))) hn ?_ hw ?_ ?_ ?_ _ _
        ⟨rfl, .inl rfl⟩
  · exact matchAt_eq_none_of_before fun h => (selfDeclaration_ends h).1
  · rintro c m left hm ⟨hc, hleft⟩
    obtain ⟨s, hs⟩ := Node.exists_leads_of_matchAt hm
    obtain ⟨hbefore, hlast⟩ := selfDeclaration_ends (Node.matchAt_sound hm).2
    refine ⟨hs.text.trans hc, .inr ⟨?_, hlast⟩⟩
    rcases hleft with rfl | ⟨hleft, -⟩
    · exact hbefore
    · exact hleft
  · rintro c x rest left hx ⟨hc, -⟩
    have hover : c.Leads (c.beyond [x]) [x] := Cursor.leads_beyond ⟨rest, hx.symm⟩
    exact ⟨hover.text.trans hc, .inl rfl⟩
  · rintro c left hm ⟨hc, hleft⟩ ⟨rest, hrest⟩
    have hbound := htext c.before.reverse rest (by rw [hrest]; exact hc.symm)
    rw [List.getLast?_reverse, Option.or_none] at hbound
    rcases hleft with rfl | ⟨-, hbefore⟩
    · exact hbound
    · have hsemicolon : Text.isIdent ';' = false := by decide
      simp [hbefore, hsemicolon] at hbound

/-- After all rules of a script without settings of its own, the name of the namespace with its dot
stands only where an identifier character stands right before it. -/
theorem no_reference_after_rules {namespaceName : String} {exports : List Export}
    {rules : List Rule} {text result : String}
    (hname : ∀ x ∈ namespaceName.toList, Text.isWord x = true)
    (hrules : (buildRules namespaceName exports none text).run.value = .ok rules)
    (hresult : applyRules rules text = .ok result) (p q : List Char)
    (hsplit : result.toList = p ++ (namespaceName.toList ++ '.' :: q)) :
    ∃ x ∈ p.getLast?, Text.isIdent x = true := by
  obtain ⟨closer, -, rfl⟩ := buildRules_none hrules
  have hall := applyRules_eq_ok hresult
  rw [Rule.standard, List.append_assoc, Rule.applyAll_append] at hall
  obtain ⟨before, -, hlast⟩ := bind_eq_ok.mp hall
  rw [Rule.namespaceDropping, Rule.selfDeclarations] at hlast
  simp only [List.cons_append, List.nil_append, Rule.applyAll_cons, Rule.apply_replacing,
    Rule.apply_removing, Rule.applyAll_nil, bind, Except.bind] at hlast
  have hident : ∀ x ∈ namespaceName.toList, Text.isIdent x = true := fun x hx => by
    simp [Text.isIdent, hname x hx]
  have hbound : BoundAfter none (namespaceName.toList ++ ['.']) result.toList := by
    rw [← Except.ok.inj hlast]
    exact boundAfter_selfDeclaration_removed hname (boundAfter_member_removed hident _)
  have hany := hbound p q (by simpa using hsplit)
  rw [Option.or_none, Option.any_eq_true] at hany
  exact hany

/-- Repeated and assigned references go away, and the one that is left belongs to a longer name. -/
theorem no_reference_after_rules_sample :
    applyRules (Rule.standard "G" [.plain "A"] none) "G.G.b;aG.c;var A=G.A;" = .ok "b;aG.c;" ∧
      ∃ x ∈ "b;a".toList.getLast?, Text.isIdent x = true := by
  have hresult : applyRules (Rule.standard "G" [.plain "A"] none) "G.G.b;aG.c;var A=G.A;" =
      .ok "b;aG.c;" := by
    decide +kernel
  have hcloser : Rule.closerOf "G.G.b;aG.c;var A=G.A;".toList = .ok none := by decide +kernel
  have hrules : (buildRules "G" [.plain "A"] none "G.G.b;aG.c;var A=G.A;").run.value =
      .ok (Rule.standard "G" [.plain "A"] none) := by
    refine Work.value_bind_eq_ok.mpr ⟨none, hcloser, ?_⟩
    rfl
  have hname : ∀ x ∈ "G".toList, Text.isWord x = true := List.all_eq_true.mp (by decide)
  exact ⟨hresult,
    no_reference_after_rules hname hrules hresult "b;a".toList "c;".toList (by decide)⟩

end ScriptModules
