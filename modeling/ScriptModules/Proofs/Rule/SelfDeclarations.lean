import ScriptModules.Proofs.Pattern.Exchange
import ScriptModules.Proofs.Rule.NamespaceFree
import ScriptModules.Proofs.Rule.WrapperText

/-!
# Declarations of a name by itself

The last rule takes out statements that declare a name by itself, as dropping the namespace leaves
them behind. The blank after the keyword may be missing, so the keyword may run into the name; and a
dollar sign may stand before it. Where `var` is no word of its own, these are the only two ways to
lose text: a statement `vars = s;` is taken out as the declaration of `s`.
-/

namespace ScriptModules

open Pattern Pattern.Node Text Rule

/-- At most one blank. -/
def AtMostOneBlank (s : List Char) : Prop := s.length ≤ 1 ∧ AllBlank s

/-- A declaration of a name by itself, with the blanks `gap` between the keyword and the name. -/
inductive SelfDeclared (gap name : List Char) : List Char → Prop
  | intro {blank blank' : List Char} (hname : IsIdentifier name) (hblank : AtMostOneBlank blank)
      (hblank' : AtMostOneBlank blank') :
      SelfDeclared gap name
        ("var".toList ++ (gap ++ (name ++ (blank ++ (['='] ++ (blank' ++ (name ++ [';'])))))))

/-- The declarations of a name by itself that do not stand inside of a word. -/
def selfSpot : Spot := fun left w _ =>
  left.any isWord = false ∧ ∃ gap name, AtMostOneBlank gap ∧ SelfDeclared gap name w

/-- A text occurs with no identifier character on either side. -/
def WholeWord (w text : List Char) : Prop :=
  ∃ a b, text = a ++ (w ++ b) ∧ a.getLast?.any isIdent = false ∧ b.head?.any isIdent = false

theorem wholeWord_iff {w text : List Char} :
    WholeWord w text ↔ (List.range (text.length + 1)).any (fun i =>
    w.isPrefixOf (text.drop i) && !(text.take i).getLast?.any isIdent &&
      !(text.drop (i + w.length)).head?.any isIdent) = true := by
  simp only [List.any_eq_true, List.mem_range, Bool.and_eq_true, Bool.not_eq_true',
    List.isPrefixOf_iff_prefix]
  constructor
  · rintro ⟨a, b, rfl, hleft, hright⟩
    refine ⟨a.length, by rw [List.length_append]; omega, ⟨?_, ?_⟩, ?_⟩
    · simp
    · simpa using hleft
    · simpa [← List.drop_drop] using hright
  · rintro ⟨i, -, ⟨⟨b, hb⟩, hleft⟩, hright⟩
    refine ⟨text.take i, b, by rw [hb, List.take_append_drop], hleft, ?_⟩
    simpa [← List.drop_drop, ← hb] using hright

instance (w text : List Char) : Decidable (WholeWord w text) :=
  decidable_of_iff _ wholeWord_iff.symm

/-- A declaration of a name by itself whose keyword is no word of its own: it runs into the name, or
there is a dollar sign before it. -/
inductive GluedDeclaration : List Char → Prop
  | name {before text rest name : List Char} (hbefore : before.getLast?.any isWord = false)
      (htext : SelfDeclared [] name text) : GluedDeclaration (before ++ (text ++ rest))
  | dollar {before gap text rest name : List Char} (hgap : AtMostOneBlank gap)
      (htext : SelfDeclared gap name text) :
      GluedDeclaration ((before ++ ['$']) ++ (text ++ rest))

section Ways

variable {c d : Cursor}

theorem mem_ways_maybeBlank :
    d ∈ maybeBlank.ways c ↔ ∃ s, AtMostOneBlank s ∧ s <+: c.after ∧ d = c.beyond s := by
  rw [maybeBlank, mem_ways_optional, mem_ways_set]
  constructor
  · rintro (⟨x, hx, hstart, rfl⟩ | rfl)
    · exact ⟨[x], ⟨by simp, List.forall_mem_singleton.mpr (by simpa using hx)⟩, hstart, rfl⟩
    · exact ⟨[], ⟨by simp, List.forall_mem_nil _⟩, List.nil_prefix, by simp⟩
  · rintro ⟨s, ⟨hlength, hblank⟩, hstart, rfl⟩
    match s, hlength with
    | [], _ => exact .inr (by simp)
    | [x], _ => exact .inl ⟨x, by simpa using hblank x (by simp), hstart, rfl⟩

/-- A declaration of a name by itself is taken with its semicolon, at the edge of a word. -/
theorem mem_ways_selfDeclaration :
    d ∈ selfDeclaration.ways c ↔ c.before.head?.any isWord = false ∧
      ∃ gap name text, AtMostOneBlank gap ∧
      SelfDeclared gap name text ∧ text <+: c.after ∧ d = (c.beyond text).record 1 name := by
  simp only [selfDeclaration, Node.sequence, wordEdge, mem_ways_seq, mem_ways_anchor, mem_ways_word,
    mem_ways_maybeBlank, identifier, mem_ways_group_oneOrMore_set, mem_ways_char, mem_ways_backref,
    CharSet.contains_ident]
  constructor
  · rintro ⟨_, ⟨hedge, rfl⟩, _, ⟨hword, rfl⟩, _, ⟨gap, hgap, hgaps, rfl⟩, _,
      ⟨name, hne, hnames, hname, rfl⟩,
      _, ⟨blank, hblank, hblanks, rfl⟩, _, ⟨hequals, rfl⟩, _, ⟨blank', hblank', hblanks', rfl⟩, _,
      ⟨again, hgroup, hagain, rfl⟩, hstop, rfl⟩
    obtain rfl : name = again := Option.some.inj hgroup
    have hlead := (Cursor.leads_beyond hword).trans ((Cursor.leads_beyond hgaps).trans
      (((Cursor.leads_beyond hnames).record 1 name).trans ((Cursor.leads_beyond hblanks).trans
        ((Cursor.leads_beyond hequals).trans
          ((Cursor.leads_beyond hblanks').trans ((Cursor.leads_beyond hagain).trans
          (Cursor.leads_beyond hstop)))))))
    obtain ⟨rest, hstart⟩ := hword
    exact ⟨(holds_boundary_var hstart.symm).mp hedge, gap, name, _, hgap,
      ⟨⟨hne, hname⟩, hblank, hblank'⟩, ⟨_, hlead.after.symm⟩, by simp [Cursor.beyond_record]⟩
  · rintro ⟨hleft, gap, name, _, hgap, @⟨blank, blank', hname, hblank, hblank'⟩,
      ⟨rest, hstart⟩, rfl⟩
    have h₁ : c.after = "var".toList ++
        (gap ++ (name ++ (blank ++ (['='] ++ (blank' ++ (name ++ ([';'] ++ rest))))))) := by
      simpa using hstart.symm
    have h₂ := Cursor.after_beyond h₁
    have h₃ := Cursor.after_beyond h₂
    have h₄ := Cursor.after_beyond h₃
    have h₅ := Cursor.after_beyond h₄
    have h₆ := Cursor.after_beyond h₅
    have h₇ := Cursor.after_beyond h₆
    have h₈ := Cursor.after_beyond h₇
    refine ⟨c, ⟨(holds_boundary_var h₁).mpr hleft, rfl⟩, _, ⟨⟨_, h₁.symm⟩, rfl⟩, _,
      ⟨gap, hgap, ⟨_, h₂.symm⟩, rfl⟩, _,
      ⟨name, hname.1, ⟨_, h₃.symm⟩, hname.2, rfl⟩, _, ⟨blank, hblank, ⟨_, h₄.symm⟩, rfl⟩, _,
      ⟨⟨_, h₅.symm⟩, rfl⟩, _,
      ⟨blank', hblank', ⟨_, h₆.symm⟩, rfl⟩, _, ⟨name, rfl, ⟨_, h₇.symm⟩, rfl⟩, ⟨_, h₈.symm⟩, ?_⟩
    simp [Cursor.beyond_record]

/-- What is taken is a declaration of a name by itself that does not stand inside of a word. -/
theorem passesOver_selfDeclaration : selfDeclaration.PassesOver selfSpot := by
  intro c w
  simp only [mem_ways_selfDeclaration]
  constructor
  · rintro ⟨_, ⟨hleft, gap, name, text, hgap, htext, ⟨rest, hrest⟩, rfl⟩, hlead⟩
    have hend : ((c.beyond text).record 1 name).after = rest := Cursor.after_beyond hrest.symm
    have hwhole := hlead.after
    rw [hend, ← hrest] at hwhole
    obtain rfl := List.append_cancel_right hwhole
    exact ⟨rest, ⟨hleft, gap, name, hgap, htext⟩, hrest.symm⟩
  · rintro ⟨rest, ⟨hleft, gap, name, hgap, htext⟩, hafter⟩
    have hstart : w <+: c.after := ⟨rest, hafter.symm⟩
    exact ⟨_, ⟨hleft, gap, name, w, hgap, htext, hstart, rfl⟩,
      (Cursor.leads_beyond hstart).record 1 name⟩

end Ways

/-- Removing what a pattern passes over leaves a text as it is exactly if no spot is in it. -/
theorem Pattern.Node.PassesOver.remove_eq_self_iff {n : Node} {spot : Spot} {text : List Char}
    (hn : n.PassesOver spot) (hadvances : n.Advances) :
    n.remove text = text ↔ ∀ a w b, text = a ++ (w ++ b) → ¬spot a.getLast? w b := by
  have hleft (a : List Char) : ((Cursor.start text).beyond a).fresh.before.head? = a.getLast? := by
    simp [Cursor.start]
  rw [Node.remove_eq_self_iff hadvances]
  constructor
  · intro h a w b hab hspot
    obtain ⟨d, hway, -⟩ := (hn ((Cursor.start text).beyond a).fresh w).mpr
      ⟨b, (hleft a).symm ▸ hspot, Cursor.after_beyond hab⟩
    exact matchAt_ne_none hway (h a _ hab)
  · intro h a b hab
    rw [matchAt_eq_none_iff, List.eq_nil_iff_forall_not_mem]
    intro d hway
    obtain ⟨w, hlead⟩ := exists_leads_of_mem_ways hway
    obtain ⟨rest, hspot, hafter⟩ := (hn _ w).mp ⟨d, hway, hlead⟩
    have hb : ((Cursor.start text).beyond a).fresh.after = b := Cursor.after_beyond hab
    refine h a w rest ?_ (hleft a ▸ hspot)
    rw [hab, ← hb, hafter]

/-- A character that goes on with an identifier but not with a word is a dollar sign. -/
theorem eq_dollar {x : Char} (hident : isIdent x = true) (hword : isWord x = false) : x = '$' := by
  simpa [isIdent, hword] using hident

/-- Where `var` is no word of its own, all declarations of a name by itself are glued to a name or a
dollar sign. -/
theorem gluedDeclaration_iff {text : List Char} (h : ¬WholeWord "var".toList text) :
    GluedDeclaration text ↔ ∃ a w b, text = a ++ (w ++ b) ∧ selfSpot a.getLast? w b := by
  constructor
  · rintro (@⟨a, w, b, name, hleft, htext⟩ | @⟨a, gap, w, b, name, hgap, htext⟩)
    · exact ⟨a, w, b, rfl, hleft, [], name, ⟨by simp, List.forall_mem_nil _⟩, htext⟩
    · have hdollar : isWord '$' = false := by decide
      exact ⟨a ++ ['$'], w, b, rfl, by rwa [List.getLast?_concat], gap, name, hgap, htext⟩
  · rintro ⟨a, w, b, rfl, hleft, gap, name, hgap, htext⟩
    cases gap with
    | nil => exact .name hleft htext
    | cons x gap =>
        -- a blank after the keyword leaves the dollar sign before it
        have hlast : a.getLast?.any isIdent = true := by
          rw [← Bool.not_eq_false]
          intro hident
          obtain @⟨blank, blank', -, -, -⟩ := htext
          rw [List.append_assoc] at h
          exact h ⟨a, _, rfl, hident, isIdent_of_isBlank (hgap.2 x List.mem_cons_self)⟩
        rcases List.eq_nil_or_concat' a with rfl | ⟨a, y, rfl⟩
        · cases hlast
        · rw [List.getLast?_concat] at hleft hlast
          obtain rfl := eq_dollar hlast hleft
          exact .dollar hgap htext

/-- The rules take out declarations of a name by itself and nothing else. In a text in which `var`
is no word of its own they lose text exactly if the keyword of such a declaration is glued to its
name or to a dollar sign. -/
theorem selfDeclarations_lose_glued {text : List Char} (h : ¬WholeWord "var".toList text) :
    ∃ result, applyAll selfDeclarations text = .ok result ∧ Exchanges selfSpot [] none text result ∧
      (result = text ↔ ¬GluedDeclaration text) := by
  refine ⟨selfDeclaration.remove text, ?_, ?_, ?_⟩
  · rw [selfDeclarations, applyAll_cons, apply_removing]
    rfl
  · exact passesOver_selfDeclaration.exchanges_replace advances_selfDeclaration [] text
  · rw [passesOver_selfDeclaration.remove_eq_self_iff advances_selfDeclaration,
      gluedDeclaration_iff h]
    simp only [not_exists, not_and]

/-- One assignment is left and one is lost, as its target starts with the keyword. -/
theorem selfDeclarations_lose_glued_target :
    ¬WholeWord "var".toList "invar = r; vary=y;".toList ∧
      GluedDeclaration "invar = r; vary=y;".toList ∧
      ∃ result, applyAll selfDeclarations "invar = r; vary=y;".toList = .ok result ∧
        Exchanges selfSpot [] none "invar = r; vary=y;".toList result ∧
          result ≠ "invar = r; vary=y;".toList := by
  have hword : ¬WholeWord "var".toList "invar = r; vary=y;".toList := by decide
  have hname : IsIdentifier ['y'] := ⟨by decide, List.all_eq_true.mp (by decide)⟩
  have hblank : AtMostOneBlank [] := ⟨by decide, List.forall_mem_nil _⟩
  have hglued : GluedDeclaration "invar = r; vary=y;".toList :=
    @GluedDeclaration.name "invar = r; ".toList "vary=y;".toList [] ['y'] (by decide)
      (.intro hname hblank hblank)
  obtain ⟨result, hresult, hexchanges, hsame⟩ := selfDeclarations_lose_glued hword
  exact ⟨hword, hglued, result, hresult, hexchanges, fun heq => hsame.mp heq hglued⟩

/-- A live statement without the keyword is lost. -/
theorem assignment_lost : ¬WholeWord "var".toList "vars = s;".toList ∧
    applyAll selfDeclarations "vars = s;".toList = .ok [] := by
  constructor
  · decide
  · decide

end ScriptModules
