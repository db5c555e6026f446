import ScriptModules.Proofs.Rule.ChainSteps
import ScriptModules.Proofs.Rule.NamespacePass
import ScriptModules.Proofs.Rule.WrapperMarks

/-!
# Declarations in any order

The exported members get their declarations one after the other, and after each of them the keywords
inside chains are taken out. The rules for two members do not disturb each other: neither writes an
assignment to the other member, and neither hides one. What is taken out inside chains is taken out
of the text with all declarations just as well, and there the order of the steps does not matter. So
the order of the exports does not matter either, if the text has no declarations inside chains of
its own.
-/

namespace ScriptModules

open Pattern Text Relation Rule

/-- A declaration up to its equals sign. -/
def declaration (member : List Char) : List Char := keyword ++ ' ' :: (member ++ [' ', '='])

/-- An assignment to a member of the namespace up to its equals sign. -/
def assignmentSpot (name member : List Char) : Spot := fun left w rest =>
  left.any isIdent = false ∧
    (∃ blank, AllBlank blank ∧ w = name ++ '.' :: (member ++ (blank ++ ['=']))) ∧
    rest.head? ≠ some '='

/-- The assignments to a member of the namespace become declarations. -/
abbrev Declared (name member : List Char) : Option Char → List Char → List Char → Prop :=
  Exchanges (assignmentSpot name member) (declaration member)

section Spots

variable {name member other blank blank' rest t : List Char} {left : Option Char} {y : Char}

theorem mem_ways_notAhead {x : Char} {c d : Cursor} :
    d ∈ (Node.look .ahead true (Node.char x)).ways c ↔ c.after.head? ≠ some x ∧ c = d := by
  rw [Node.ways, @eq_comm _ c d]
  cases h : c.after with
  | nil => simp [Cursor.origin, Node.ways_char, h]
  | cons y rest => by_cases hx : y = x <;> simp [Cursor.origin, Node.ways_char, h, hx, Ne.symm]

theorem reads_assignment (namespaceName member : String) :
    (assignment namespaceName member).Reads
      (assignmentSpot namespaceName.toList member.toList) := by
  intro c d
  simp only [assignment, Node.sequence, Node.mem_ways_seq, mem_ways_member, Node.mem_ways_word,
    Node.blanks, Node.mem_ways_many_set, Node.mem_ways_char, mem_ways_notAhead,
    CharSet.contains_blank]
  constructor
  · rintro ⟨_, ⟨hleft, hname, rfl⟩, _, ⟨hmember, rfl⟩, _, ⟨blank, hstart, hblank, rfl⟩, _,
      ⟨hequals, rfl⟩, hrest, rfl⟩
    have hafter := (Cursor.leads_beyond hname).after
    rw [(Cursor.leads_beyond hmember).after, (Cursor.leads_beyond hstart).after,
      (Cursor.leads_beyond hequals).after] at hafter
    refine ⟨_, _, ⟨hleft, ⟨blank, hblank, rfl⟩, hrest⟩, by simpa using hafter, by simp⟩
  · rintro ⟨_, rest, ⟨hleft, ⟨blank, hblank, rfl⟩, hrest⟩, hafter, rfl⟩
    have h₁ :
        c.after = (namespaceName.toList ++ ['.']) ++ (member.toList ++ (blank ++ '=' :: rest)) := by
      simpa using hafter
    have h₂ := Cursor.after_beyond h₁
    have h₃ := Cursor.after_beyond h₂
    have h₄ := Cursor.after_beyond h₃
    refine ⟨_, ⟨hleft, ⟨_, h₁.symm⟩, rfl⟩, _, ⟨⟨_, h₂.symm⟩, rfl⟩, _,
      ⟨blank, ⟨_, h₃.symm⟩, hblank, rfl⟩, _, ⟨⟨rest, h₄.symm⟩, rfl⟩, ?_, by simp⟩
    rwa [Cursor.after_beyond (s := ['=']) h₄]

/-- What comes after a name, perhaps after blanks, is no part of it. -/
theorem exists_cons_blank (hblank : AllBlank blank) (hy : blank ≠ [] ∨ isIdent y = false)
    (rest : List Char) :
    ∃ y' t, blank ++ y :: rest = y' :: t ∧ isIdent y' = false := by
  cases blank with
  | nil => exact ⟨y, rest, rfl, hy.resolve_left (by simp)⟩
  | cons y t => exact ⟨y, _, rfl, isIdent_of_isBlank (hblank y (by simp))⟩

theorem member_unique (hmember : ∀ x ∈ member, isIdent x = true)
    (hother : ∀ x ∈ other, isIdent x = true) (hblank : AllBlank blank) (hy : isIdent y = false)
    (h : member ++ (blank ++ '=' :: rest) = other ++ y :: t) :
    member = other ∧ blank ++ '=' :: rest = y :: t := by
  obtain ⟨z, r, hz, hzident⟩ := exists_cons_blank (y := '=') hblank (.inr (by decide)) rest
  rw [hz] at h ⊢
  obtain ⟨hrun, rfl, rfl⟩ := Statement.eq_of_append_of_ends hmember hother hzident hy h
  exact ⟨hrun, rfl⟩

theorem blank_unique (hblank : AllBlank blank) (hblank' : AllBlank blank')
    (h : blank ++ '=' :: rest = blank' ++ '=' :: t) : blank = blank' ∧ rest = t := by
  obtain ⟨hrun, -, hrest⟩ := Statement.eq_of_append_of_ends hblank hblank' (by decide) (by decide) h
  exact ⟨hrun, hrest⟩

theorem definite_assignmentSpot (name member : List Char) :
    Definite (assignmentSpot name member) where
  ne_nil := by
    rintro left w rest ⟨-, ⟨blank, -, rfl⟩, -⟩
    simp
  unique := by
    rintro left w rest w' rest' ⟨-, ⟨blank, hblank, rfl⟩, -⟩ ⟨-, ⟨blank', hblank', rfl⟩, -⟩ h
    have hrest : blank ++ '=' :: rest = blank' ++ '=' :: rest' := by simpa using h
    rw [(blank_unique hblank hblank' hrest).1]

theorem ofNamespace_assignmentSpot (name member : List Char) :
    OfNamespace name (assignmentSpot name member) := by
  rintro left w rest ⟨hleft, ⟨blank, -, rfl⟩, -⟩
  exact ⟨hleft, member ++ (blank ++ ['=']), by simp⟩

/-- No reference starts in a text without dots that ends with no part of an identifier. -/
theorem OfNamespace.free_of_no_dot {spot : Spot} {s : List Char} (hspot : OfNamespace name spot)
    (hname : ∀ x ∈ name, isIdent x = true) (hdot : '.' ∉ s)
    (hend : (lastOf left s).any isIdent = false) :
    Free spot left s rest := by
  induction s generalizing left with
  | nil => trivial
  | cons x s ih =>
      refine ⟨fun w r hsplit hw => ?_, ih (fun h => hdot (List.mem_cons_of_mem x h)) hend⟩
      obtain ⟨tail, rfl⟩ := (hspot _ _ _ hw).2
      -- the text would be the start of the namespace
      have hstart : x :: s <+: name := by
        refine prefix_of_not_mem (z := '.') (r := tail ++ r) ⟨rest, ?_⟩ hdot
        simpa using hsplit
      have hrun : ∀ z ∈ x :: s, isIdent z = true := fun z hz => hname z (hstart.subset hz)
      rw [any_lastOf (by simp) hrun] at hend
      cases hend

/-- An assignment to a member holds no assignment to another one. -/
theorem free_assignment (hname : ∀ x ∈ name, isIdent x = true) (hne : name ≠ [])
    (hmember : ∀ x ∈ member, isIdent x = true) (hother : ∀ x ∈ other, isIdent x = true)
    (hdiffers : member ≠ other) (hblank : AllBlank blank) :
    Free (assignmentSpot name other) left (name ++ '.' :: (member ++ (blank ++ ['=']))) rest := by
  have hspot := ofNamespace_assignmentSpot name other
  have hstart : Bare (assignmentSpot name other) left
      (name ++ ('.' :: (member ++ (blank ++ ['='])) ++ rest)) := by
    rintro w r hsplit ⟨-, ⟨blank', hblank', rfl⟩, -⟩
    obtain ⟨y, t, ht, hy⟩ := exists_cons_blank (y := '=') hblank' (.inr (by decide)) r
    have heq : member ++ (blank ++ '=' :: rest) = other ++ (blank' ++ '=' :: r) := by
      simpa using hsplit
    rw [ht] at heq
    exact hdiffers (member_unique hmember hother hblank hy heq).1
  refine free_append (hspot.free_run hname hstart)
    ⟨hspot.bare_of_not_isIdent hname hne (by decide), ?_⟩
  have hend : isIdent '=' = false := by decide
  refine hspot.free_of_no_dot hname (fun hdot => ?_) (by simpa using hend)
  simp only [List.mem_append, List.mem_singleton] at hdot
  rcases hdot with hdot | hdot | hdot
  · exact absurd (hmember _ hdot) (by decide)
  · exact absurd (hblank _ hdot) (by decide)
  · cases hdot

end Spots

section Commuting

variable {name member other blank rest s u v w r : List Char} {left : Option Char} {x : Char}

/-- What a rule writes holds no assignment. -/
theorem free_declaration (hname : ∀ x ∈ name, isIdent x = true)
    (hmember : ∀ x ∈ member, isIdent x = true) :
    Free (assignmentSpot name other) left (declaration member) rest := by
  have hend : isIdent '=' = false := by decide
  refine (ofNamespace_assignmentSpot name other).free_of_no_dot hname (fun hdot => ?_)
    (by simpa [declaration] using hend)
  have hmem : '.' ∈ member := by simpa [declaration] using hdot
  exact absurd (hmember _ hmem) (by decide)

@[simp] theorem lastOf_declaration :
    lastOf left (declaration member) = some '=' := by simp [declaration]

/-- Where no keyword starts in the outcome, a character of the text is copied. -/
theorem Declared.exists_of_ne (h : Declared name member left s (x :: v)) (hx : x ≠ 'v') :
    ∃ rest, s = x :: rest ∧ Declared name member (some x) rest v := by
  refine h.exists_of_cons (h.bare_of_not_prefix (definite_assignmentSpot _ _) ?_)
  simp [declaration, Ne.symm hx]

theorem Declared.exists_of_blank (h : Declared name member left s (blank ++ '=' :: r))
    (hblank : AllBlank blank) :
    ∃ rest, s = blank ++ '=' :: rest ∧ Declared name member (some '=') rest r := by
  induction blank generalizing left s with
  | nil => exact h.exists_of_ne (by decide)
  | cons x blank ih =>
      have hx : x ≠ 'v' := by
        rintro rfl
        exact absurd (hblank 'v' (by simp)) (by decide)
      obtain ⟨rest, rfl, hrest⟩ := Declared.exists_of_ne (v := blank ++ '=' :: r) h hx
      obtain ⟨rest, rfl, hlast⟩ := ih hrest fun y hy => hblank y (List.mem_cons_of_mem x hy)
      exact ⟨rest, rfl, hlast⟩

/-- An equals sign at the start is copied. -/
theorem Declared.head?_of_equals (h : Declared name member left s u)
    (hname : ∀ x ∈ name, isIdent x = true) (hne : name ≠ []) (hs : s.head? = some '=') :
    u.head? = some '=' := by
  obtain ⟨rest, rfl⟩ := List.head?_eq_some_iff.mp hs
  obtain ⟨v, rfl, -⟩ := h.of_bare rfl
    ((ofNamespace_assignmentSpot name member).bare_of_not_isIdent hname hne (by decide))
  rfl

/-- The rule for a member writes no assignment to another one. -/
theorem Declared.bare_other (h : Declared name member left s u)
    (hname : ∀ x ∈ name, isIdent x = true) (hne : name ≠ [])
    (hother : ∀ x ∈ other, isIdent x = true) (hkeyword : other ≠ keyword)
    (hbare : Bare (assignmentSpot name member) left s)
    (hbare' : Bare (assignmentSpot name other) left s) :
    Bare (assignmentSpot name other) left u := by
  rintro w r hsplit ⟨hleft, ⟨blank, hblank, rfl⟩, hr⟩
  have hspot := ofNamespace_assignmentSpot name member
  have hu : u = name ++ '.' :: (other ++ (blank ++ '=' :: r)) := by simpa using hsplit
  subst hu
  obtain ⟨s₁, rfl, h₁, hdot⟩ := hspot.exists_of_run hname h hbare
  obtain ⟨s₂, rfl, h₂⟩ := h₁.exists_of_cons (hdot hne)
  -- after the dot comes no declaration, since the other member is not the keyword
  have hmember : Bare (assignmentSpot name member) (some '.') s₂ := by
    refine h₂.bare_of_not_prefix (definite_assignmentSpot _ _) ?_
    rintro ⟨q, hq⟩
    have heq : other ++ (blank ++ '=' :: r) = keyword ++ ' ' :: (member ++ ' ' :: '=' :: q) := by
      simpa [declaration] using hq.symm
    exact hkeyword (member_unique hother isIdent_keyword hblank (by decide) heq).1
  obtain ⟨s₃, rfl, h₃, -⟩ := hspot.exists_of_run hother h₂ hmember
  obtain ⟨s₄, rfl, h₄⟩ := Declared.exists_of_blank h₃ hblank
  refine hbare' _ s₄ ?_ ⟨hleft, ⟨blank, hblank, rfl⟩,
    fun hequals => hr (h₄.head?_of_equals hname hne hequals)⟩
  simp

/-- Where an assignment to a member stands, both orders of the rules for it and another one write
its declaration. -/
theorem Declared.exists_of_spot (hname : ∀ x ∈ name, isIdent x = true) (hne : name ≠ [])
    (hmember : ∀ x ∈ member, isIdent x = true) (hother : ∀ x ∈ other, isIdent x = true)
    (hdiffers : member ≠ other) (hspot : assignmentSpot name member left w rest) {u' v' : List Char}
    (h₁ : Declared name member left (w ++ rest) u) (h₂ : Declared name other left u v)
    (h₁' : Declared name other left (w ++ rest) u') (h₂' : Declared name member left u' v') :
    ∃ a b a' b', v = declaration member ++ b ∧ v' = declaration member ++ b' ∧
      Declared name member (some '=') rest a ∧ Declared name other (some '=') a b ∧
      Declared name other (some '=') rest a' ∧ Declared name member (some '=') a' b' := by
  obtain ⟨a, rfl, ha⟩ := h₁.of_spot (definite_assignmentSpot _ _) rfl hspot
  obtain ⟨b, rfl, hb⟩ := h₂.of_free (free_declaration hname hmember)
  obtain ⟨hleft, ⟨blank, hblank, rfl⟩, hrest⟩ := hspot
  obtain ⟨a', rfl, ha'⟩ := h₁'.of_free (free_assignment hname hne hmember hother hdiffers hblank)
  have hequals : a'.head? ≠ some '=' := fun h =>
    hrest (ha'.head?_of_head? (by simp [declaration]) (by simp [declaration]) h)
  obtain ⟨b', rfl, hb'⟩ :=
    h₂'.of_spot (definite_assignmentSpot _ _) rfl ⟨hleft, ⟨blank, hblank, rfl⟩, hequals⟩
  simp only [lastOf_append, lastOf_cons, lastOf_nil, lastOf_declaration] at ha hb ha' hb'
  exact ⟨a, b, a', b', rfl, rfl, ha, hb, ha', hb'⟩

/-- The rules for two members may be applied in any order. -/
theorem Declared.commute (hname : ∀ x ∈ name, isIdent x = true) (hne : name ≠ [])
    (hmember : ∀ x ∈ member, isIdent x = true) (hkeyword : member ≠ keyword)
    (hother : ∀ x ∈ other, isIdent x = true) (hkeyword' : other ≠ keyword)
    (hdiffers : member ≠ other) {u' v' : List Char} (h₁ : Declared name member left s u)
    (h₂ : Declared name other left u v) (h₁' : Declared name other left s u')
    (h₂' : Declared name member left u' v') : v = v' := by
  induction hlength : s.length using Nat.strongRecOn generalizing left s u v u' v' with
  | ind k ih =>
      subst hlength
      by_cases hbare : Bare (assignmentSpot name member) left s
      · by_cases hbare' : Bare (assignmentSpot name other) left s
        · cases s with
          | nil =>
              obtain rfl := h₁.of_nil (definite_assignmentSpot _ _) rfl
              obtain rfl := h₁'.of_nil (definite_assignmentSpot _ _) rfl
              rw [h₂.of_nil (definite_assignmentSpot _ _) rfl,
                h₂'.of_nil (definite_assignmentSpot _ _) rfl]
          | cons x rest =>
              have hu := h₁.bare_other hname hne hother hkeyword' hbare hbare'
              have hu' := h₁'.bare_other hname hne hmember hkeyword hbare' hbare
              obtain ⟨a, rfl, ha⟩ := h₁.of_bare rfl hbare
              obtain ⟨b, rfl, hb⟩ := h₂.of_bare rfl hu
              obtain ⟨a', rfl, ha'⟩ := h₁'.of_bare rfl hbare'
              obtain ⟨b', rfl, hb'⟩ := h₂'.of_bare rfl hu'
              rw [ih _ (by simp) ha hb ha' hb' rfl]
        · obtain ⟨w, rest, rfl, hspot⟩ := exists_spot_of_not_bare hbare'
          obtain ⟨a, b, a', b', rfl, rfl, ha, hb, ha', hb'⟩ :=
            Declared.exists_of_spot hname hne hother hmember hdiffers.symm hspot h₁' h₂' h₁ h₂
          rw [ih _ ((definite_assignmentSpot _ _).length_lt hspot) ha' hb' ha hb rfl]
      · obtain ⟨w, rest, rfl, hspot⟩ := exists_spot_of_not_bare hbare
        obtain ⟨a, b, a', b', rfl, rfl, ha, hb, ha', hb'⟩ :=
          Declared.exists_of_spot hname hne hmember hother hdiffers hspot h₁ h₂ h₁' h₂'
        rw [ih _ ((definite_assignmentSpot _ _).length_lt hspot) ha hb ha' hb' rfl]

end Commuting

section Keywords

variable {name member rest s t u v w a y : List Char} {left : Option Char}

theorem equals_not_mem_target {blank : List Char} (hname : ∀ x ∈ name, isIdent x = true)
    (hmember : ∀ x ∈ member, isIdent x = true) (hblank : AllBlank blank) :
    '=' ∉ name ++ '.' :: (member ++ blank) := by
  intro hmem
  simp only [List.mem_append, List.mem_cons] at hmem
  rcases hmem with hmem | hmem | hmem | hmem
  · exact absurd (hname _ hmem) (by decide)
  · cases hmem
  · exact absurd (hmember _ hmem) (by decide)
  · exact absurd (hblank _ hmem) (by decide)

/-- An assignment ends at the first equals sign in it. -/
theorem assignmentSpot_cut (hname : ∀ x ∈ name, isIdent x = true)
    (hmember : ∀ x ∈ member, isIdent x = true) (hspot : assignmentSpot name member left w rest)
    (h : w ++ rest = a ++ '=' :: y) :
    (w = a ++ ['='] ∧ rest = y) ∨ ∃ z, z ≠ [] ∧ a = w ++ z ∧ rest = z ++ '=' :: y := by
  obtain ⟨-, ⟨blank, hblank, rfl⟩, hrest⟩ := hspot
  have hcut : a ++ '=' :: y = (name ++ '.' :: (member ++ blank)) ++ '=' :: rest := by
    simpa using h.symm
  rcases eq_or_exists_of_append hcut (equals_not_mem_target hname hmember hblank) with
    ⟨rfl, -⟩ | ⟨z, rfl⟩
  · exact .inl ⟨by simp, (List.cons.inj (List.append_cancel_left hcut)).2.symm⟩
  · have hz : rest = z ++ '=' :: y := by simpa using hcut.symm
    refine .inr ⟨z, ?_, by simp, hz⟩
    rintro rfl
    exact hrest (by simp [hz])

/-- The rule cuts a text at its equals signs: what comes after one may be changed without a change
before it. -/
theorem Declared.exists_cut (hname : ∀ x ∈ name, isIdent x = true) (hne : name ≠ [])
    (hmember : ∀ x ∈ member, isIdent x = true) (h : Declared name member left s u)
    (hs : s = a ++ '=' :: y) (hy : y.head? ≠ some '=') :
    ∃ a' u', u = a' ++ '=' :: u' ∧ Declared name member (some '=') y u' ∧
      (lastOf left a = some ' ' → lastOf left a' = some ' ') ∧
      ∀ y₂ u₂, y₂.head? ≠ some '=' → Declared name member (some '=') y₂ u₂ →
        Declared name member left (a ++ '=' :: y₂) (a' ++ '=' :: u₂) := by
  have hspots := ofNamespace_assignmentSpot name member
  induction h generalizing a with
  | finished => simp at hs
  | @found left w rest u hspot hrest ih =>
      rcases assignmentSpot_cut hname hmember hspot hs with ⟨rfl, rfl⟩ | ⟨z, hz, rfl, rfl⟩
      · refine ⟨keyword ++ ' ' :: (member ++ [' ']), u, by simp [declaration], by simpa using hrest,
          by simp, ?_⟩
        intro y₂ u₂ hy₂ h₂
        have hspot₂ : assignmentSpot name member left (a ++ ['=']) y₂ := ⟨hspot.1, hspot.2.1, hy₂⟩
        have hfound : Declared name member left _ _ := .found hspot₂ (by simpa using h₂)
        simpa [declaration] using hfound
      · obtain ⟨z', u', rfl, hafter, hblank, hswap⟩ := ih rfl
        have hlast : lastOf left w = some '=' := by
          obtain ⟨-, ⟨blank, -, rfl⟩, -⟩ := hspot
          simp
        refine ⟨declaration member ++ z', u', by simp, hafter, fun h => ?_, fun y₂ u₂ hy₂ h₂ => ?_⟩
        · rw [lastOf_append, hlast] at h
          rw [lastOf_append, lastOf_declaration]
          exact hlast ▸ hblank (hlast ▸ h)
        · have hhead : (z ++ '=' :: y₂).head? ≠ some '=' := by
            rw [List.head?_append_of_ne_nil _ hz]
            simpa [List.head?_append_of_ne_nil _ hz] using hspot.2.2
          have hspot₂ : assignmentSpot name member left w (z ++ '=' :: y₂) :=
            ⟨hspot.1, hspot.2.1, hhead⟩
          have hfound : Declared name member left _ _ := .found hspot₂ (hswap y₂ u₂ hy₂ h₂)
          simpa using hfound
  | @copied left x rest u hbare hrest ih =>
      cases a with
      | nil =>
          obtain ⟨rfl, rfl⟩ := List.cons.inj hs
          refine ⟨[], u, rfl, hrest, id, fun y₂ u₂ hy₂ h₂ => ?_⟩
          exact .copied (hspots.bare_of_not_isIdent hname hne (by decide)) h₂
      | cons x' a =>
          obtain ⟨rfl, rfl⟩ := List.cons.inj hs
          obtain ⟨a', u', rfl, hafter, hblank, hswap⟩ := ih rfl
          refine ⟨x :: a', u', rfl, hafter, hblank,
            fun y₂ u₂ hy₂ h₂ => .copied ?_ (hswap y₂ u₂ hy₂ h₂)⟩
          -- an assignment at this place would stand there before the change too
          intro w r hsplit hspot
          rcases assignmentSpot_cut (a := x :: a) hname hmember hspot hsplit.symm with
            ⟨rfl, -⟩ | ⟨z, hz, ha, rfl⟩
          · exact hbare _ y (by simp) ⟨hspot.1, hspot.2.1, hy⟩
          · refine hbare w (z ++ '=' :: y) ?_ ⟨hspot.1, hspot.2.1, ?_⟩
            · change (x :: a) ++ '=' :: y = _
              rw [ha, List.append_assoc]
            · rw [List.head?_append_of_ne_nil _ hz]
              simpa [List.head?_append_of_ne_nil _ hz] using hspot.2.2

/-- Taking out a keyword inside a chain and making declarations may change places. -/
theorem Declared.shortens (hname : ∀ x ∈ name, isIdent x = true) (hne : name ≠ [])
    (hmember : ∀ x ∈ member, isIdent x = true) (h : Declared name member none s u)
    (hst : Shortens s t) :
    ∃ v, Declared name member none t v ∧ Shortens u v := by
  have hspots := ofNamespace_assignmentSpot name member
  obtain ⟨p, q, rfl, rfl⟩ := hst
  obtain ⟨a, u, rfl, hafter, hblank, hswap⟩ :=
    h.exists_cut (a := p ++ [' ']) (y := ' ' :: (keyword ++ ' ' :: q)) hname
    hne hmember (by simp) (by simp)
  obtain ⟨a, rfl⟩ := exists_of_lastOf (hblank (by simp))
  have hplain : isIdent ' ' = false := by decide
  have hfree : Free (assignmentSpot name member) (some '=') (' ' :: (keyword ++ [' '])) q :=
    hspots.free_of_no_dot hname (by decide) (by simpa using hplain)
  have hnext : Declared name member (some '=') ((' ' :: (keyword ++ [' '])) ++ q) u := by
    simpa using hafter
  obtain ⟨v, rfl, hq⟩ := hnext.of_free hfree
  have hcopied : Declared name member (some '=') (' ' :: q) (' ' :: v) :=
    .copied (hspots.bare_of_not_isIdent hname hne hplain) (by simpa using hq)
  refine ⟨a ++ ' ' :: '=' :: ' ' :: v, ?_, a, v, by simp, rfl⟩
  simpa using hswap _ _ (by simp) hcopied

theorem Declared.reflTransGen_shortens (hname : ∀ x ∈ name, isIdent x = true) (hne : name ≠ [])
    (hmember : ∀ x ∈ member, isIdent x = true) (h : Declared name member none s u)
    (hst : ReflTransGen Shortens s t) :
    ∃ v, Declared name member none t v ∧ ReflTransGen Shortens u v := by
  induction hst with
  | refl => exact ⟨u, h, .refl⟩
  | tail _ hstep ih =>
      obtain ⟨v, hv, huv⟩ := ih
      obtain ⟨v', hv', hlast⟩ := hv.shortens hname hne hmember hstep
      exact ⟨v', hv', huv.tail hlast⟩

/-- An equals sign in the outcome comes from one in the text. -/
theorem Declared.exists_of_equals (hmember : ∀ x ∈ member, isIdent x = true)
    (h : Declared name member left s u) (hu : u = a ++ '=' :: v) :
    ∃ b y, s = b ++ '=' :: y ∧ Declared name member (some '=') y v := by
  induction h generalizing a with
  | finished => simp at hu
  | @found left w rest u hspot hrest ih =>
      have hbody : '=' ∉ keyword ++ ' ' :: (member ++ [' ']) := by
        intro hmem
        have hmem : '=' ∈ member := by simpa using hmem
        exact absurd (hmember _ hmem) (by decide)
      have hcut : a ++ '=' :: v = (keyword ++ ' ' :: (member ++ [' '])) ++ '=' :: u := by
        simpa [declaration] using hu.symm
      rcases eq_or_exists_of_append hcut hbody with ⟨rfl, -⟩ | ⟨z, rfl⟩
      · obtain rfl := (List.cons.inj (List.append_cancel_left hcut)).2
        obtain ⟨-, ⟨blank, -, rfl⟩, -⟩ := hspot
        exact ⟨name ++ '.' :: (member ++ blank), rest, by simp, by simpa using hrest⟩
      · obtain ⟨b, y, rfl, hy⟩ := ih (a := z) (by simpa using hcut.symm)
        exact ⟨w ++ b, y, by simp, hy⟩
  | @copied left x rest u hbare hrest ih =>
      cases a with
      | nil =>
          obtain ⟨rfl, rfl⟩ := List.cons.inj hu
          exact ⟨[], rest, rfl, hrest⟩
      | cons x' a =>
          obtain ⟨b, y, rfl, hy⟩ := ih (List.cons.inj hu).2
          exact ⟨x :: b, y, rfl, hy⟩

/-- After the rule for a member, all keywords right after equals signs declare names, if they did
before. -/
theorem KeywordsDeclare.declared (hs : KeywordsDeclare s) (hname : ∀ x ∈ name, isIdent x = true)
    (hmember : ∀ x ∈ member, isIdent x = true) (hkeyword : member ≠ keyword)
    (h : Declared name member left s u) :
    KeywordsDeclare u := by
  have hspots := ofNamespace_assignmentSpot name member
  intro p q hu
  obtain ⟨b, y, rfl, hy⟩ := h.exists_of_equals hmember hu
  obtain ⟨y, rfl, hblank⟩ := hy.exists_of_ne (by decide)
  by_cases hbare : Bare (assignmentSpot name member) (some ' ') y
  · -- the keyword stands in the text, and so does the name after it
    obtain ⟨y, rfl, hlast, -⟩ := hspots.exists_of_run isIdent_keyword hblank hbare
    obtain ⟨y, rfl, hq⟩ := Declared.exists_of_ne hlast (by decide)
    obtain ⟨n, rest, hn, hother, rfl⟩ := hs b y rfl
    have hfree : Free (assignmentSpot name member) (some ' ') (n ++ [' ', '=']) rest := by
      have hend : isIdent '=' = false := by decide
      refine hspots.free_of_no_dot hname (fun hdot => ?_) (by simpa using hend)
      have hmem : '.' ∈ n := by simpa using hdot
      exact absurd (hn _ hmem) (by decide)
    have hnext : Declared name member (some ' ') ((n ++ [' ', '=']) ++ rest) q := by simpa using hq
    obtain ⟨v, rfl, -⟩ := hnext.of_free hfree
    exact ⟨n, v, hn, hother, by simp⟩
  · obtain ⟨w, r, rfl, hspot⟩ := exists_spot_of_not_bare hbare
    obtain ⟨v, hv, -⟩ := hblank.of_spot (definite_assignmentSpot _ _) rfl hspot
    exact ⟨member, v, hmember, hkeyword, by simpa [declaration] using hv⟩

end Keywords

/-- The text in which the assignments to a member are declarations. -/
def declareMember (namespaceName : String) (text : List Char) (member : String) : List Char :=
  (assignment namespaceName member).replace none (fun _ => declaration member.toList) text

section Orders

variable {namespaceName : String} {members : List String} {s t : List Char}

theorem declared_declareMember (namespaceName member : String) (text : List Char) :
    Declared namespaceName.toList member.toList none text
      (declareMember namespaceName text member) :=
  (reads_assignment namespaceName member).exchanges_replace (definite_assignmentSpot _ _) _ text

/-- The rules for one member make its declarations and take the keywords out of chains. -/
theorem applyAll_member (namespaceName : String) {member : String}
    (hmember : ∀ x ∈ member.toList, isIdent x = true) (rules : List Rule) (text : List Char) :
    ∃ u, Exchanges chainSpot [' ', '=', ' '] none (declareMember namespaceName text member) u ∧
      applyAll
        ([⟨assignment namespaceName member, declaring member, 0⟩,
        replacing (Node.word " = var ") " = "] ++
        rules) text = applyAll rules u := by
  have hplain : '\\' ∉ member.toList := fun h => absurd (hmember _ h) (by decide)
  have hout : ("var " ++ member ++ " =").toList = declaration member.toList := by simp [declaration]
  refine ⟨_, reads_chain.exchanges_replace definite_chainSpot _ _, ?_⟩
  rw [rule_assignment hplain, List.cons_append, applyAll_cons, apply_replacing, hout]
  change applyAll (replacing (Node.word " = var ") " = " :: rules)
      (declareMember namespaceName text member) = _
  rw [applyAll_cons, apply_replacing]
  rfl

/-- The rules for the members succeed, and their outcome is reached from the text with all
declarations by taking keywords out of chains, as long as there are any. -/
theorem applyAll_declarations (hne : namespaceName ≠ "")
    (hname : ∀ x ∈ namespaceName.toList, isIdent x = true) {exports : List Export}
    (hmembers : ∀ member ∈ exports.filterMap Export.plain?,
      (∀ x ∈ member.toList, isIdent x = true) ∧ member ≠ "var")
    (hst : ReflTransGen Shortens t s) (hs : KeywordsDeclare s) (hfree : ¬chainedKeyword <:+: s) :
    ∃ r, applyAll (declarations namespaceName exports) s = .ok r ∧
      ReflTransGen Shortens ((exports.filterMap Export.plain?).foldl
        (declareMember namespaceName) t) r ∧
      ¬chainedKeyword <:+: r := by
  rw [declarations]
  generalize exports.filterMap Export.plain? = members at hmembers
  induction members generalizing s t with
  | nil => exact ⟨s, rfl, hst, hfree⟩
  | cons member members ih =>
      obtain ⟨hmember, hkeyword⟩ := hmembers member (by simp)
      have hne' : namespaceName.toList ≠ [] := by simpa using hne
      have hkeyword' : member.toList ≠ keyword := fun h => hkeyword (String.toList_inj.mp h)
      obtain ⟨u, hu, hrules⟩ := applyAll_member namespaceName hmember
        (members.flatMap fun name =>
          [⟨assignment namespaceName name, declaring name, 0⟩,
            replacing (Node.word " = var ") " = "]) s
      obtain ⟨v, hv, htv⟩ :=
        (declared_declareMember namespaceName member t).reflTransGen_shortens hname hne' hmember hst
      have hsv := declared_declareMember namespaceName member s
      rw [hsv.unique (definite_assignmentSpot _ _) hv] at hu hsv
      have hdeclare := hs.declared hname hmember hkeyword' hsv
      have hsteps : ReflTransGen Shortens (declareMember namespaceName t member) u :=
        htv.trans (shortens_of_exchanges hu [])
      obtain ⟨r, hr, hlast⟩ := ih hsteps (hdeclare.exchanges hu) (hdeclare.not_chained hu)
        fun m hm => hmembers m (List.mem_cons_of_mem _ hm)
      exact ⟨r, hrules.trans hr, hlast⟩

theorem KeywordsDeclare.foldl_declareMember (hs : KeywordsDeclare s)
    (hname : ∀ x ∈ namespaceName.toList, isIdent x = true)
    (hmembers : ∀ member ∈ members, (∀ x ∈ member.toList, isIdent x = true) ∧ member ≠ "var") :
    KeywordsDeclare (members.foldl (declareMember namespaceName) s) := by
  induction members generalizing s with
  | nil => exact hs
  | cons member members ih =>
      obtain ⟨hmember, hkeyword⟩ := hmembers member (by simp)
      have hnext := hs.declared hname hmember (fun h => hkeyword (String.toList_inj.mp h))
        (declared_declareMember namespaceName member s)
      exact ih hnext fun m hm => hmembers m (List.mem_cons_of_mem _ hm)

/-- The declarations of the members may be made in any order. -/
theorem foldl_declareMember_perm (hne : namespaceName ≠ "")
    (hname : ∀ x ∈ namespaceName.toList, isIdent x = true) {members' : List String}
    (hperm : members.Perm members')
    (hmembers : ∀ member ∈ members, (∀ x ∈ member.toList, isIdent x = true) ∧ member ≠ "var")
    (text : List Char) :
    members.foldl (declareMember namespaceName) text =
      members'.foldl (declareMember namespaceName) text := by
  refine hperm.foldl_eq' (fun a ha b hb text => ?_) text
  obtain ⟨hident, hkeyword⟩ := hmembers a ha
  obtain ⟨hident', hkeyword'⟩ := hmembers b hb
  by_cases hab : a = b
  · rw [hab]
  have hne' : namespaceName.toList ≠ [] := by simpa using hne
  exact Declared.commute hname hne' hident (fun h => hkeyword (String.toList_inj.mp h)) hident'
    (fun h => hkeyword' (String.toList_inj.mp h)) (fun h => hab (String.toList_inj.mp h))
    (declared_declareMember namespaceName a text) (declared_declareMember namespaceName b _)
    (declared_declareMember namespaceName b text) (declared_declareMember namespaceName a _)

end Orders

/-- The order of the exports does not matter to the rules that make declarations of the assignments
to them. -/
theorem declarations_perm {namespaceName : String} (hne : namespaceName ≠ "")
    (hname : ∀ x ∈ namespaceName.toList, isIdent x = true) {exports exports' : List Export}
    (hperm : exports.Perm exports')
    (hmembers : ∀ member ∈ exports.filterMap Export.plain?,
      (∀ x ∈ member.toList, isIdent x = true) ∧ member ≠ "var")
    {text : List Char} (htext : ¬"= var ".toList <:+: text) :
    ∃ r, applyAll (declarations namespaceName exports) text = .ok r ∧
      applyAll (declarations namespaceName exports') text = .ok r := by
  have hperm' := hperm.filterMap Export.plain?
  obtain ⟨hdeclare, hfree⟩ := absent_keyword htext
  obtain ⟨r, hr, hsteps, hlast⟩ := applyAll_declarations hne hname hmembers .refl hdeclare hfree
  obtain ⟨r', hr', hsteps', hlast'⟩ := applyAll_declarations hne hname
    (fun member hmember => hmembers member (hperm'.mem_iff.mpr hmember)) .refl hdeclare hfree
  rw [← foldl_declareMember_perm hne hname hperm' hmembers] at hsteps'
  rw [← eq_of_shortens hsteps hsteps' hlast hlast'] at hr'
  exact ⟨r, hr, hr'⟩

/-- Two chains, the second one with a line break. -/
theorem declarations_perm_chains :
    applyAll (declarations "G" [.plain "A", .plain "B"])
      "G.A = G.B = G.A= 1;G.B =\nG.A = 2;".toList =
        .ok "var A = B = A = 1;var B =\nvar A = 2;".toList ∧
      applyAll (declarations "G" [.plain "B", .plain "A"])
        "G.A = G.B = G.A= 1;G.B =\nG.A = 2;".toList =
        .ok "var A = B = A = 1;var B =\nvar A = 2;".toList := by
  have hfirst :
      applyAll (declarations "G" [.plain "A", .plain "B"])
        "G.A = G.B = G.A= 1;G.B =\nG.A = 2;".toList =
        .ok "var A = B = A = 1;var B =\nvar A = 2;".toList := by
    decide +kernel
  have hmembers : ∀ member ∈ [Export.plain "A", .plain "B"].filterMap Export.plain?,
      (∀ x ∈ member.toList, isIdent x = true) ∧ member ≠ "var" := by
    intro member hmember
    rcases List.mem_pair.mp hmember with rfl | rfl
    · exact ⟨List.all_eq_true.mp (by decide), by decide⟩
    · exact ⟨List.all_eq_true.mp (by decide), by decide⟩
  have hname : ∀ x ∈ "G".toList, isIdent x = true := List.all_eq_true.mp (by decide)
  have htext : ¬"= var ".toList <:+: "G.A = G.B = G.A= 1;G.B =\nG.A = 2;".toList := by decide
  obtain ⟨r, hr, hr'⟩ :=
    declarations_perm (by decide) hname (.swap (.plain "B") (.plain "A") []) hmembers htext
  rw [hfirst] at hr
  rw [← Except.ok.inj hr] at hr'
  exact ⟨hfirst, hr'⟩

end ScriptModules
