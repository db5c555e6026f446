import ScriptModules.Proofs.Pattern.Exchange
import ScriptModules.Proofs.Import.Clause
import Mathlib.Logic.Relation

/-!
# Declarations inside a chain

Where an assignment inside a chain has become a declaration, its keyword stands after the equals
sign before it and is taken out again. One such step removes one keyword. Steps at different places
do not disturb each other, so all ways to take them end with the same text, if they end with a text
in which no keyword is left to be taken out. The rule takes all of its steps at once; it leaves none
to be taken if after each keyword that it may find comes a name and an equals sign.
-/

namespace ScriptModules

open Pattern Text Relation

/-- The keyword of a declaration. -/
abbrev keyword : List Char := ['v', 'a', 'r']

/-- A keyword inside a chain, with what stands around it. -/
abbrev chainedKeyword : List Char := ' ' :: '=' :: ' ' :: (keyword ++ [' '])

theorem isIdent_keyword : ∀ x ∈ keyword, isIdent x = true := List.all_eq_true.mp (by decide)

/-- One keyword inside a chain is taken out. -/
def Shortens (s t : List Char) : Prop :=
  ∃ p q, s = p ++ (chainedKeyword ++ q) ∧ t = p ++ ' ' :: '=' :: ' ' :: q

/-- The name of a declaration, with the equals sign after it. -/
def Declares (s : List Char) : Prop :=
  ∃ name rest, (∀ x ∈ name, isIdent x = true) ∧ name ≠ keyword ∧ s = name ++ ' ' :: '=' :: rest

/-- Every keyword right after an equals sign and a blank declares a name. -/
def KeywordsDeclare (s : List Char) : Prop :=
  ∀ p q, s = p ++ '=' :: ' ' :: (keyword ++ ' ' :: q) → Declares q

/-- A text without keywords after equals signs has none to be taken out, and none that declares no
name. -/
theorem absent_keyword {s : List Char} (h : ¬"= var ".toList <:+: s) :
    KeywordsDeclare s ∧ ¬chainedKeyword <:+: s := by
  constructor
  · rintro p q rfl
    exact absurd ⟨p, q, by simp⟩ h
  · rintro ⟨p, q, rfl⟩
    exact h ⟨p ++ [' '], q, by simp⟩

section Steps

variable {s t u p q : List Char}

/-- Two keywords in a chain stand apart, or the blank after the one is the blank before the
other. -/
theorem keywords_apart {z : List Char} (h : chainedKeyword ++ p = z ++ (chainedKeyword ++ q)) :
    z = [] ∨ (z = ' ' :: '=' :: ' ' :: keyword ∧ p = '=' :: ' ' :: (keyword ++ ' ' :: q)) ∨
      ∃ z', z = chainedKeyword ++ z' ∧ p = z' ++ (chainedKeyword ++ q) := by
  rcases z with _ | ⟨x₁, _ | ⟨x₂, _ | ⟨x₃, _ | ⟨x₄, _ | ⟨x₅, _ | ⟨x₆, _ | ⟨x₇, z⟩⟩⟩⟩⟩⟩⟩
  · exact .inl rfl
  · simp at h
  · simp at h
  · simp at h
  · simp at h
  · simp at h
  · simp at h
    obtain ⟨rfl, rfl, rfl, rfl, rfl, rfl, rfl⟩ := h
    exact .inr (.inl ⟨rfl, rfl⟩)
  · simp at h
    obtain ⟨rfl, rfl, rfl, rfl, rfl, rfl, rfl, rfl⟩ := h
    exact .inr (.inr ⟨z, rfl, rfl⟩)

/-- Steps at different places lead on to a common text. -/
theorem Shortens.diamond (ht : Shortens s t) (hu : Shortens s u) :
    ∃ v, ReflGen Shortens t v ∧ ReflGen Shortens u v := by
  -- the later of the two keywords comes after `z`
  have hlater : ∀ {p q z q' : List Char}, chainedKeyword ++ q = z ++ (chainedKeyword ++ q') →
      ∃ v, ReflGen Shortens (p ++ ' ' :: '=' :: ' ' :: q) v ∧
        ReflGen Shortens (p ++ z ++ ' ' :: '=' :: ' ' :: q') v := by
    intro p q z q' h
    rcases keywords_apart h with rfl | ⟨rfl, rfl⟩ | ⟨z, rfl, rfl⟩
    · obtain rfl : q = q' := by simpa using h
      rw [List.append_nil]
      exact ⟨_, .refl, .refl⟩
    · refine ⟨p ++ ' ' :: '=' :: ' ' :: '=' :: ' ' :: q', .single ?_, .single ?_⟩
      · exact ⟨p ++ [' ', '='], q', by simp, by simp⟩
      · exact ⟨p, '=' :: ' ' :: q', by simp, by simp⟩
    · refine ⟨p ++ ' ' :: '=' :: ' ' :: (z ++ ' ' :: '=' :: ' ' :: q'), .single ?_, .single ?_⟩
      · exact ⟨p ++ ' ' :: '=' :: ' ' :: z, q', by simp, by simp⟩
      · exact ⟨p, z ++ ' ' :: '=' :: ' ' :: q', by simp, by simp⟩
  obtain ⟨p, q, rfl, rfl⟩ := ht
  obtain ⟨p', q', heq, rfl⟩ := hu
  rcases List.append_eq_append_iff.mp heq with ⟨z, rfl, hz⟩ | ⟨z, rfl, hz⟩
  · exact hlater hz
  · obtain ⟨v, hv, hv'⟩ := hlater (p := p') hz
    exact ⟨v, hv', hv⟩

/-- All ways to take steps that end with a text without keywords inside chains end with the same
text. -/
theorem eq_of_shortens (ht : ReflTransGen Shortens s t) (hu : ReflTransGen Shortens s u)
    (htfree : ¬chainedKeyword <:+: t) (hufree : ¬chainedKeyword <:+: u) : t = u := by
  have hstop : ∀ {a b : List Char}, ¬chainedKeyword <:+: a → ReflTransGen Shortens a b → a = b := by
    intro a b hfree h
    rcases h.cases_head with rfl | ⟨c, ⟨p, q, rfl, -⟩, -⟩
    · rfl
    · exact absurd ⟨p, q, by simp⟩ hfree
  obtain ⟨v, hv, hv'⟩ := church_rosser (fun a b c hb hc => by
    obtain ⟨d, hbd, hcd⟩ := hb.diamond hc
    exact ⟨d, hbd, hcd.to_reflTransGen⟩) ht hu
  exact (hstop htfree hv).trans (hstop hufree hv').symm

end Steps

/-- The spots of keywords inside chains. -/
abbrev chainSpot : Spot := Node.wordSpot chainedKeyword

theorem reads_chain : (Node.word " = var ").Reads chainSpot := Node.reads_word " = var "

theorem definite_chainSpot : Definite chainSpot := Node.definite_wordSpot (by simp)

section Cleaning

variable {left : Option Char} {s u v q rest name : List Char} {x : Char}

/-- The rule for keywords inside chains takes steps. -/
theorem shortens_of_exchanges (h : Exchanges chainSpot [' ', '=', ' '] left s u) (p : List Char) :
    ReflTransGen Shortens (p ++ s) (p ++ u) := by
  induction h generalizing p with
  | finished => exact .refl
  | @found left w rest u hw _ ih =>
      obtain rfl : w = chainedKeyword := hw
      have hstep : Shortens (p ++ (chainedKeyword ++ rest)) (p ++ [' ', '=', ' '] ++ rest) :=
        ⟨p, rest, rfl, by simp⟩
      have hrest := ih (p ++ [' ', '=', ' '])
      rw [List.append_assoc p _ u] at hrest
      exact .head hstep hrest
  | @copied left x rest u _ _ ih =>
      have hrest := ih (p ++ [x])
      rwa [List.append_assoc, List.append_assoc] at hrest

/-- No keyword inside a chain starts with another character than a blank. -/
theorem bare_of_ne_blank (hx : x ≠ ' ') : Bare chainSpot left (x :: rest) := by
  rw [Node.bare_wordSpot_iff]
  rintro ⟨r, hr⟩
  exact hx (List.cons.inj hr).1.symm

/-- A name is copied, and so is the equals sign after it. -/
theorem exists_of_declared (hname : ∀ x ∈ name, isIdent x = true)
    (h : Exchanges chainSpot [' ', '=', ' '] left (name ++ ' ' :: '=' :: rest) u) :
    ∃ rest', u = name ++ ' ' :: '=' :: rest' := by
  induction name generalizing left u with
  | nil =>
      by_cases hbare : Bare chainSpot left (' ' :: '=' :: rest)
      · obtain ⟨v, rfl, hrest⟩ := h.of_bare rfl hbare
        obtain ⟨v, rfl, -⟩ := hrest.of_bare rfl (bare_of_ne_blank (by decide))
        exact ⟨v, rfl⟩
      · obtain ⟨w, r, hsplit, hw⟩ := exists_spot_of_not_bare hbare
        obtain ⟨v, rfl, -⟩ := h.of_spot definite_chainSpot hsplit hw
        exact ⟨' ' :: v, rfl⟩
  | cons x name ih =>
      have hx : x ≠ ' ' := by
        rintro rfl
        exact absurd (hname ' ' (by simp)) (by decide)
      obtain ⟨v, rfl, hrest⟩ := h.of_bare rfl (bare_of_ne_blank hx)
      obtain ⟨r, rfl⟩ := ih (fun y hy => hname y (List.mem_cons_of_mem _ hy)) hrest
      exact ⟨r, rfl⟩

/-- The outcome goes on with a declared name where the text does. -/
theorem Declares.exchanges (h : Declares s) (hu : Exchanges chainSpot [' ', '=', ' '] left s u) :
    Declares u := by
  obtain ⟨name, rest, hname, hother, rfl⟩ := h
  obtain ⟨rest', rfl⟩ := exists_of_declared hname hu
  exact ⟨name, rest', hname, hother, rfl⟩

theorem Declares.not_keyword (h : Declares (keyword ++ ' ' :: q)) : False := by
  obtain ⟨name, rest, hname, hother, heq⟩ := h
  obtain ⟨hrun, -, -⟩ :=
    Statement.eq_of_append_of_ends isIdent_keyword hname (by decide) (by decide) heq
  exact hother hrun.symm

theorem Declares.not_equals (h : Declares ('=' :: q)) : False := by
  obtain ⟨name, rest, hname, -, heq⟩ := h
  cases name with
  | nil => simp at heq
  | cons x name =>
      obtain ⟨rfl, -⟩ := List.cons.inj heq
      exact absurd (hname '=' (by simp)) (by decide)

/-- The letters of a keyword in the outcome stand in the text, and so does the blank after them. -/
theorem exists_of_keyword (h : Exchanges chainSpot [' ', '=', ' '] left s (keyword ++ ' ' :: v)) :
    ∃ rest, s = keyword ++ ' ' :: rest ∧
      (Exchanges chainSpot [' ', '=', ' '] (some ' ') rest v ∨
        ∃ r, rest = '=' :: ' ' :: (keyword ++ ' ' :: r)) := by
  have hcopy : ∀ {left s x v}, x ≠ ' ' → Exchanges chainSpot [' ', '=', ' '] left s (x :: v) →
      ∃ rest, s = x :: rest ∧ Exchanges chainSpot [' ', '=', ' '] (some x) rest v := by
    intro left s x v hx h
    exact h.exists_of_cons (h.bare_of_not_prefix definite_chainSpot (by simp [Ne.symm hx]))
  obtain ⟨s₁, rfl, h₁⟩ := hcopy (by decide) h
  obtain ⟨s₂, rfl, h₂⟩ := hcopy (by decide) h₁
  obtain ⟨s₃, rfl, h₃⟩ := hcopy (by decide) h₂
  by_cases hbare : Bare chainSpot (some 'r') s₃
  · obtain ⟨s₄, rfl, h₄⟩ := h₃.exists_of_cons hbare
    exact ⟨s₄, rfl, .inl h₄⟩
  · obtain ⟨w, r, rfl, rfl⟩ := exists_spot_of_not_bare hbare
    exact ⟨_, rfl, .inr ⟨r, rfl⟩⟩

/-- A blank and a keyword in the outcome stand in the text. -/
theorem exists_of_blank_keyword
    (h : Exchanges chainSpot [' ', '=', ' '] left s (' ' :: (keyword ++ ' ' :: v))) :
    ∃ rest, s = ' ' :: (keyword ++ ' ' :: rest) ∧
      (Exchanges chainSpot [' ', '=', ' '] (some ' ') rest v ∨
        ∃ r, rest = '=' :: ' ' :: (keyword ++ ' ' :: r)) := by
  obtain ⟨s, rfl, hrest⟩ := h.exists_of_cons (h.bare_of_not_prefix definite_chainSpot (by simp))
  obtain ⟨rest, rfl, hlast⟩ := exists_of_keyword hrest
  exact ⟨rest, rfl, hlast⟩

theorem KeywordsDeclare.of_append {p : List Char} (h : KeywordsDeclare (p ++ s)) :
    KeywordsDeclare s := by
  rintro a q rfl
  exact h (p ++ a) q (by simp)

/-- After the rule for keywords inside chains, the keywords left declare names. -/
theorem KeywordsDeclare.exchanges (hs : KeywordsDeclare s)
    (h : Exchanges chainSpot [' ', '=', ' '] left s u) :
    KeywordsDeclare u := by
  induction h with
  | finished => exact hs
  | @found left w rest u hw hrest ih =>
      obtain rfl : w = chainedKeyword := hw
      have hnext : Declares rest := hs [' '] rest rfl
      rintro p q hsplit
      -- the equals sign that was left is not followed by a keyword
      rcases p with _ | ⟨x₁, _ | ⟨x₂, _ | ⟨x₃, p⟩⟩⟩
      · simp at hsplit
      · simp only [List.cons_append, List.nil_append, List.cons.injEq, true_and] at hsplit
        exact absurd (hsplit.2 ▸ hrest) fun h => (hnext.exchanges h).not_keyword
      · simp at hsplit
      · simp only [List.cons_append, List.nil_append, List.cons.injEq] at hsplit
        exact ih hs.of_append p q hsplit.2.2.2
  | @copied left x rest u _ hrest ih =>
      rintro p q hsplit
      cases p with
      | nil =>
          obtain ⟨rfl, hu⟩ := List.cons.inj hsplit
          rw [hu] at hrest
          obtain ⟨r, rfl, hlast⟩ := exists_of_blank_keyword hrest
          have hnext : Declares r := hs [] r rfl
          rcases hlast with hlast | ⟨r, rfl⟩
          · exact hnext.exchanges hlast
          · exact absurd hnext fun h => h.not_equals
      | cons y p =>
          exact ih (hs.of_append (p := [x])) p q (List.cons.inj hsplit).2

/-- After the rule for keywords inside chains, none is left. -/
theorem KeywordsDeclare.not_chained (hs : KeywordsDeclare s)
    (h : Exchanges chainSpot [' ', '=', ' '] left s u) :
    ¬chainedKeyword <:+: u := by
  induction h with
  | finished => simp
  | @found left w rest u hw hrest ih =>
      obtain rfl : w = chainedKeyword := hw
      have hnext : Declares rest := hs [' '] rest rfl
      intro hin
      simp only [List.cons_append, List.nil_append, List.infix_cons_iff] at hin
      rcases hin with ⟨r, hr⟩ | hpre | ⟨r, hr⟩ | hin
      · simp only [List.cons_append, List.nil_append, List.cons.injEq, true_and] at hr
        exact (hnext.exchanges (hr ▸ hrest)).not_keyword
      · simp at hpre
      · simp only [List.cons_append, List.nil_append, List.cons.injEq, true_and] at hr
        exact (hnext.exchanges (hr ▸ hrest)).not_equals
      · exact ih hs.of_append hin
  | @copied left x rest u hbare hrest ih =>
      intro hin
      rcases List.infix_cons_iff.mp hin with hpre | hin
      · obtain ⟨r, hr⟩ := hpre
        obtain ⟨rfl, hu⟩ := List.cons.inj hr
        rw [← hu] at hrest
        obtain ⟨t, rfl, hblank⟩ :=
          hrest.exists_of_cons (hrest.bare_of_not_prefix definite_chainSpot (by simp))
        obtain ⟨t, rfl, -⟩ := exists_of_blank_keyword (v := r) hblank
        exact hbare chainedKeyword t rfl rfl
      · exact ih (hs.of_append (p := [x])) hin

end Cleaning

end ScriptModules
