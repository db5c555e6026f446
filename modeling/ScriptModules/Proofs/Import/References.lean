import ScriptModules.Proofs.Export.Chains
import ScriptModules.Proofs.Import.Groups
import ScriptModules.Proofs.Pattern.Words
import ScriptModules.Proofs.Rule.WrapperText
import Mathlib.Data.List.Nodup

/-!
# References that become imports

A script needs a name where it instantiates or checks for a member of the namespace, and where it
creates an object from the prototype of the name. The scan for such references takes them from left
to right and none twice. It misses none: what is read as one reference never reaches over the start
of another one, as the mark with which a reference starts does not occur inside of one. So every
name that is referred to is imported, and imported once, if the script does not export it itself.
-/

namespace ScriptModules

open Pattern Pattern.Node Text Rule

/-- The keywords in front of a class. -/
def classKeywords : List String := ["new", "instanceof"]

/-- The creation of an object from the prototype of a name, which may stand behind the namespace. -/
inductive WrittenParent (space name : List Char) : List Char → Prop
  | intro {blank member blank' : List Char} (hblank : AllBlank blank)
      (hmember : member = [] ∨ member = space ++ ['.'])
      (hname : IsIdentifier name) (hblank' : AllBlank blank') :
      WrittenParent space name
        ("Object.create(".toList ++
          (blank ++ (member ++ (name ++ (".prototype".toList ++ (blank' ++ [')']))))))

/-- The script refers to a name: as a member of the namespace behind a keyword that stands for
itself, or as the parent of a new object. -/
inductive RefersTo (space name : List Char) : List Char → Prop
  | keyword {before gap rest : List Char} {keyword : String} (hkeyword : keyword ∈ classKeywords)
      (hbefore : before.getLast?.any (CharSet.identOr ['.']).contains = false) (hne : gap ≠ [])
        (hgap : AllBlank gap)
      (hname : IsIdentifier name) (hrest : rest.head?.any isIdent = false) :
      RefersTo space name (before ++ (keyword.toList ++ (gap ++ (space ++ '.' :: (name ++ rest)))))
  | parent {before text rest : List Char} (htext : WrittenParent space name text) :
      RefersTo space name (before ++ (text ++ rest))

/-- A group is read where no match that starts before reaches over its start. -/
theorem mem_groupTexts {n : Node} {before rest name : List Char} {d : Cursor} (hn : n.Advances)
    (htakes : n.Takes ((Cursor.start (before ++ rest)).beyond before).fresh d)
    (hgroups : d.groups = [(1, name)])
    (hstops : ∀ {s e f}, s <:+ before → s ≠ [] → e.after = s ++ rest → f ∈ n.ways e →
      rest.length ≤ f.after.length) : name ∈ n.groupTexts 1 (before ++ rest) := by
  rw [groupTexts, allMatches_eq_matchesAt hn]
  refine List.mem_map.mpr ⟨_, mem_matchesAt hn rfl htakes.matchAt ?_,
    by rw [Match.group_eq_lookup hgroups 0]; rfl⟩
  intro e m a b hlead hab hb hm
  have hafter : e.fresh.after = b ++ rest := by
    have htext : a ++ e.after = before ++ rest := hlead.after.symm
    rw [hab, List.append_assoc] at htext
    exact List.append_cancel_left htext
  exact hstops ⟨a, hab.symm⟩ hb hafter (matchAt_sound hm).2

section Keywords

variable {namespaceName keyword : String} {gap name rest : List Char} {c d : Cursor}

theorem isWord_of_mem_classKeywords (h : keyword ∈ classKeywords) :
    keyword.toList ≠ [] ∧ ∀ x ∈ keyword.toList, isWord x = true := by
  have hall : classKeywords.all (fun k => !k.toList.isEmpty && k.toList.all isWord) = true := by
    decide
  have hkeyword := List.all_eq_true.mp hall keyword h
  rw [Bool.and_eq_true] at hkeyword
  exact ⟨by simpa using hkeyword.1, List.all_eq_true.mp hkeyword.2⟩

theorem advances_keywordMember (h : keyword.toList ≠ []) (namespaceName : String) :
    (Signature.keywordMember keyword namespaceName).Advances :=
  advances_seq_right (advances_seq_left (advances_word h))

theorem exists_of_mem_ways_keywordMember
    (h : d ∈ (Signature.keywordMember keyword namespaceName).ways c) :
    ∃ gap name, AllBlank gap ∧ (∀ x ∈ name, isIdent x = true) ∧
      c.after = keyword.toList ++ (gap ++ ((namespaceName.toList ++ '.' :: name) ++ d.after)) := by
  obtain ⟨c₁, hedge, h⟩ := mem_ways_seq.mp h
  obtain ⟨-, rfl⟩ := mem_ways_anchor.mp hedge
  obtain ⟨c₂, hword, h⟩ := mem_ways_seq.mp h
  obtain ⟨c₃, hgap, h⟩ := mem_ways_seq.mp h
  obtain ⟨c₄, hmember, hname⟩ := mem_ways_seq.mp h
  obtain ⟨gap, -, hblank, hafter₂⟩ := passes_oneOrMore hgap
  obtain ⟨-, hstart, rfl⟩ := mem_ways_member.mp hmember
  obtain ⟨name, -, hident, hafter₄, -⟩ := passes_group_oneOrMore hname
  refine ⟨gap, name, by simpa using hblank, by simpa using hident, ?_⟩
  rw [(passes_word hword).1, hafter₂, (Cursor.leads_beyond hstart).after, hafter₄]
  simp

/-- A keyword, blanks and a member of the namespace are taken, the whole name of the member as group
1. -/
theorem exists_takes_keywordMember (hkeyword : keyword ∈ classKeywords)
    (hspace : IsIdentifier namespaceName.toList) (hleft : c.before.head?.any isWord = false)
    (hne : gap ≠ []) (hgap : AllBlank gap) (hname : IsIdentifier name)
    (hrest : rest.head?.any isIdent = false)
    (hc : c.after = keyword.toList ++ (gap ++ (namespaceName.toList ++ '.' :: (name ++ rest)))) :
    ∃ d, (Signature.keywordMember keyword namespaceName).Takes c d ∧
      d.groups = (1, name) :: c.groups := by
  obtain ⟨hfirst, hword⟩ := isWord_of_mem_classKeywords hkeyword
  have h₁ := Cursor.after_beyond hc
  have h₂ := Cursor.after_beyond h₁
  have h₃ : (((c.beyond keyword.toList).beyond gap).beyond (namespaceName.toList ++ ['.'])).after =
      name ++ rest :=
    Cursor.after_beyond (by simpa using h₂)
  have hedge : c.holds (.boundary .unicode) = true := by
    rw [Cursor.holds_boundary, hleft, hc, isWord_head hfirst hword (List.prefix_append _ _)]
    rfl
  have hstop : ∀ x ∈ (namespaceName.toList ++ '.' :: (name ++ rest)).head?,
      CharSet.blank.contains x = false := by
    intro x hx
    obtain ⟨y, tail, hy⟩ := List.exists_cons_of_ne_nil hspace.1
    obtain rfl : y = x := by simpa [hy] using hx
    rw [CharSet.contains_blank]
    exact isBlank_of_isIdent (hspace.2 y (by simp [hy]))
  have hbehind : ((c.beyond keyword.toList).beyond gap).before.head?.any isIdent = false := by
    obtain ⟨g, x, rfl⟩ := (List.eq_nil_or_concat' gap).resolve_left hne
    simpa using isIdent_of_isBlank (hgap x (by simp))
  obtain ⟨d, hgroup, -, hgroups⟩ :=
    exists_takes_group 1 (takes_identifier h₃ hname ((Option.any_eq_false _ _).mp hrest)) h₃
  refine ⟨d, ?_, hgroups⟩
  exact (takes_anchor hedge).seq ((takes_word hc).seq
    ((takes_oneOrMore_set h₁ hne (by simpa using hgap) hstop).seq
      ((takes_member hbehind h₂).seq hgroup)))

/-- A text of characters of one kind does not end with another. -/
theorem any_getLast?_of_forall {p : Char → Bool} {s : List Char} (hne : s ≠ [])
    (h : ∀ x ∈ s, p x = true) :
    s.getLast?.any p = true := by
  rw [List.getLast?_eq_some_getLast hne]
  exact h _ (List.getLast_mem hne)

/-- A keyword that stands for itself does not start inside of a keyword, blanks and a member of the
namespace. -/
theorem length_le_of_keyword {s k space gap name rest after : List Char} {x : Char} (hne : s ≠ [])
    (hlast : s.getLast?.any (CharSet.identOr ['.']).contains = false) (hk : IsIdentifier k)
    (hspace : ∀ x ∈ space, isIdent x = true) (hx : isBlank x = true) (hgap : AllBlank gap)
    (hname : ∀ x ∈ name, isIdent x = true)
    (h : s ++ (k ++ x :: rest) = k ++ (gap ++ ((space ++ '.' :: name) ++ after))) :
    (k ++ x :: rest).length ≤ after.length := by
  have hends {t : List Char} (ht : t ≠ []) (hall : ∀ y ∈ t, isIdent y = true ∨ y = '.') :
      t.getLast?.any (CharSet.identOr ['.']).contains = true := by
    refine any_getLast?_of_forall ht fun y hy => ?_
    rw [CharSet.contains_identOr]
    rcases hall y hy with hident | rfl
    · simp [hident]
    · simp
  have hmember : ∀ y ∈ space ++ '.' :: name, isIdent y = true ∨ y = '.' := by
    intro y hy
    rcases List.mem_append.mp hy with hy | hy
    · exact .inl (hspace y hy)
    · rcases List.mem_cons.mp hy with rfl | hy
      · exact .inr rfl
      · exact .inl (hname y hy)
  -- the keyword ends with a blank, the namespace with a dot
  have hother : k ++ x :: rest ≠ (space ++ '.' :: name) ++ after := by
    intro heq
    rw [List.append_assoc, List.cons_append] at heq
    obtain ⟨-, rfl, -⟩ :=
      Statement.eq_of_append_of_ends hk.2 hspace (isIdent_of_isBlank hx) (by decide) heq
    simp [isBlank] at hx
  rcases List.append_eq_append_iff.mp h with ⟨u, hu, -⟩ | ⟨s', rfl, hgaps⟩
  · -- the place lies in the first keyword
    rw [hends hne fun y hy => .inl (hk.2 y (by simp [hu, hy]))] at hlast
    cases hlast
  rcases List.append_eq_append_iff.mp hgaps with ⟨t, rfl, htail⟩ | ⟨g, rfl, htail⟩
  · by_cases ht : t = []
    · subst ht
      exact absurd htail.symm hother
    rcases List.append_eq_append_iff.mp htail with ⟨u, rfl, rfl⟩ | ⟨u, hu, -⟩
    · simp
    · -- the place lies in the member of the namespace
      rw [← List.append_assoc, List.getLast?_append_of_ne_nil _ ht,
        hends ht fun y hy => hmember y (by simp only [hu, List.mem_append, hy, true_or])] at hlast
      cases hlast
  · cases g with
    | nil => exact absurd htail hother
    | cons y g =>
        -- the place lies among the blanks
        obtain ⟨z, k, rfl⟩ := List.exists_cons_of_ne_nil hk.1
        obtain rfl : z = y := (List.cons.inj htail).1
        have hblank := hgap z (by simp)
        rw [isBlank_of_isIdent (hk.2 z (by simp))] at hblank
        cases hblank

/-- The member of the namespace behind a keyword that stands for itself is read. -/
theorem mem_groupTexts_keywordMember {before : List Char} (hkeyword : keyword ∈ classKeywords)
    (hspace : IsIdentifier namespaceName.toList)
    (hbefore : before.getLast?.any (CharSet.identOr ['.']).contains = false) (hne : gap ≠ [])
    (hgap : AllBlank gap) (hname : IsIdentifier name) (hrest : rest.head?.any isIdent = false) :
    name ∈ (Signature.keywordMember keyword namespaceName).groupTexts 1
      (before ++ (keyword.toList ++ (gap ++ (namespaceName.toList ++ '.' :: (name ++ rest))))) := by
  obtain ⟨hfirst, hword⟩ := isWord_of_mem_classKeywords hkeyword
  have hidentifier : IsIdentifier keyword.toList :=
    ⟨hfirst, fun x hx => by simp [isIdent, hword x hx]⟩
  generalize htext :
    keyword.toList ++ (gap ++ (namespaceName.toList ++ '.' :: (name ++ rest))) = text
  have hleft :
      ((Cursor.start (before ++ text)).beyond before).fresh.before.head?.any isWord = false := by
    simp only [Cursor.before_fresh, Cursor.before_beyond, Cursor.start, List.append_nil,
      List.head?_reverse]
    rw [Option.any_eq_false] at hbefore ⊢
    intro x hx
    have hglued := hbefore x hx
    rw [CharSet.contains_identOr, isIdent, Bool.or_eq_false_iff, Bool.or_eq_false_iff] at hglued
    exact hglued.1.1
  have hafter : ((Cursor.start (before ++ text)).beyond before).fresh.after = text :=
    Cursor.after_beyond rfl
  obtain ⟨d, htakes, hgroups⟩ :=
    exists_takes_keywordMember hkeyword hspace hleft hne hgap hname hrest
    (hafter.trans htext.symm)
  refine mem_groupTexts (advances_keywordMember hfirst _) htakes hgroups ?_
  rintro s e f ⟨a, rfl⟩ hs he hf
  obtain ⟨gap', name', hgap', hname', heq⟩ := exists_of_mem_ways_keywordMember hf
  rw [List.getLast?_append_of_ne_nil _ hs] at hbefore
  obtain ⟨x, gap, rfl⟩ := List.exists_cons_of_ne_nil hne
  rw [← htext] at he ⊢
  exact length_le_of_keyword hs hbefore hidentifier hspace.2 (hgap x (by simp)) hgap' hname'
    (he.symm.trans heq)

end Keywords

section Parents

variable {namespaceName : String} {name name' text text' rest rest' : List Char} {c d : Cursor}

theorem advances_inheritance (namespaceName : String) :
    (Signature.inheritance namespaceName).Advances :=
  advances_seq_left (advances_word (by decide))

/-- Where no identifier stands before it, the namespace may be taken or left out. -/
theorem mem_ways_optional_member (hleft : c.before.head?.any isIdent = false) :
    d ∈ (optional (Signature.member namespaceName)).ways c ↔
      ∃ member, (member = [] ∨ member = namespaceName.toList ++ ['.']) ∧ member <+: c.after ∧
        d = c.beyond member := by
  rw [mem_ways_optional, mem_ways_member]
  constructor
  · rintro (⟨-, hstart, rfl⟩ | rfl)
    · exact ⟨_, .inr rfl, hstart, rfl⟩
    · exact ⟨[], .inl rfl, List.nil_prefix, by simp⟩
  · rintro ⟨_, rfl | rfl, hstart, rfl⟩
    · exact .inr (by simp)
    · exact .inl ⟨hleft, hstart, rfl⟩

/-- No identifier goes on after the mark of a creation and blanks. -/
theorem any_before_mark {blank : List Char} (hblank : AllBlank blank) (c : Cursor) :
    ((c.beyond "Object.create(".toList).beyond blank).before.head?.any isIdent = false := by
  rcases List.eq_nil_or_concat' blank with rfl | ⟨blank, x, rfl⟩
  · exact (by decide : isIdent '(' = false)
  · simpa using isIdent_of_isBlank (hblank x (by simp))

/-- The creation of an object is taken with its end, and the name of the parent is captured. -/
theorem mem_ways_inheritance :
    d ∈ (Signature.inheritance namespaceName).ways c ↔
      ∃ name text, WrittenParent namespaceName.toList name text ∧ text <+: c.after ∧
        d = (c.beyond text).record 1 name := by
  simp only [Signature.inheritance, Signature.prototypeOf, Node.sequence, mem_ways_seq,
    mem_ways_word, blanks, mem_ways_many_set, identifier, mem_ways_group_oneOrMore_set,
    mem_ways_char, CharSet.contains_blank, CharSet.contains_ident]
  constructor
  · rintro ⟨_, ⟨hword, rfl⟩, _, ⟨blank, hblanks, hblank, rfl⟩, _,
      ⟨_, hmember, _, ⟨name, hne, hnames, hname, rfl⟩,
      hprototype, rfl⟩, _, ⟨blank', hblanks', hblank', rfl⟩, hclose, rfl⟩
    obtain ⟨member, hspace, hmembers, rfl⟩ :=
      (mem_ways_optional_member (any_before_mark hblank c)).mp hmember
    have hlead := (Cursor.leads_beyond hword).trans
      ((Cursor.leads_beyond hblanks).trans ((Cursor.leads_beyond hmembers).trans
      (((Cursor.leads_beyond hnames).record 1 name).trans
        ((Cursor.leads_beyond hprototype).trans ((Cursor.leads_beyond hblanks').trans
        (Cursor.leads_beyond hclose))))))
    exact ⟨name, _, ⟨hblank, hspace, ⟨hne, hname⟩, hblank'⟩, ⟨_, hlead.after.symm⟩,
      by simp [Cursor.beyond_record]⟩
  · rintro ⟨name, _, @⟨blank, member, blank', hblank, hspace, hname, hblank'⟩, ⟨rest, hstart⟩, rfl⟩
    have h₁ :
        c.after = "Object.create(".toList ++ (blank ++ (member ++ (name ++ (".prototype".toList ++
        (blank' ++ ([')'] ++ rest)))))) := by simpa using hstart.symm
    have h₂ := Cursor.after_beyond h₁
    have h₃ := Cursor.after_beyond h₂
    have h₄ := Cursor.after_beyond h₃
    have h₅ := Cursor.after_beyond h₄
    have h₆ := Cursor.after_beyond h₅
    have h₇ := Cursor.after_beyond h₆
    have hmember :=
      (mem_ways_optional_member (any_before_mark hblank c)).mpr ⟨member, hspace, ⟨_, h₃.symm⟩, rfl⟩
    refine ⟨_, ⟨⟨_, h₁.symm⟩, rfl⟩, _, ⟨blank, ⟨_, h₂.symm⟩, hblank, rfl⟩, _, ⟨_, hmember, _,
      ⟨name, hname.1, ⟨_, h₄.symm⟩, hname.2, rfl⟩, ⟨_, h₅.symm⟩, rfl⟩, _,
      ⟨blank', ⟨_, h₆.symm⟩, hblank', rfl⟩,
      ⟨_, h₇.symm⟩, ?_⟩
    simp [Cursor.beyond_record]

/-- What follows `prototype` does not go on with a name or a dot. -/
theorem exists_cons_close {blank : List Char} (hblank : AllBlank blank) (rest : List Char) :
    ∃ y tail, blank ++ ([')'] ++ rest) = y :: tail ∧ isIdent y = false ∧ y ≠ '.' := by
  cases blank with
  | nil => exact ⟨')', rest, rfl, by decide, by decide⟩
  | cons y blank =>
      have hy := hblank y List.mem_cons_self
      refine ⟨y, _, rfl, isIdent_of_isBlank hy, ?_⟩
      rintro rfl
      simp [isBlank] at hy

/-- What follows the blanks in front of a parent starts with a name. -/
theorem exists_cons_parent {space member name : List Char} (hspace : IsIdentifier space)
    (hname : IsIdentifier name) (hmember : member = [] ∨ member = space ++ ['.'])
    (rest : List Char) :
    ∃ x tail, member ++ (name ++ rest) = x :: tail ∧ isBlank x = false := by
  have hstart {s : List Char} (hs : IsIdentifier s) (t : List Char) :
      ∃ x tail, s ++ t = x :: tail ∧ isBlank x = false := by
    obtain ⟨x, s, rfl⟩ := List.exists_cons_of_ne_nil hs.1
    exact ⟨x, s ++ t, rfl, isBlank_of_isIdent (hs.2 x List.mem_cons_self)⟩
  rcases hmember with rfl | rfl
  · exact hstart hname rest
  · rw [List.append_assoc]
    exact hstart hspace _

/-- A name whose prototype is taken is not the namespace before another name whose prototype is
taken. -/
theorem prototype_ne_member {space name name' rest rest' : List Char} {y : Char}
    (hspace : IsIdentifier space) (hname : IsIdentifier name) (hname' : IsIdentifier name')
    (hy : isIdent y = false) (hdot : y ≠ '.') :
    name ++ '.' :: ("prototype".toList ++ y :: rest) ≠ space ++ '.' :: (name' ++ '.' :: rest') := by
  intro h
  obtain ⟨-, -, h⟩ := Statement.eq_of_append_of_ends hname.2 hspace.2 (by decide) (by decide) h
  have hword : ∀ x ∈ "prototype".toList, isIdent x = true := List.all_eq_true.mp (by decide)
  obtain ⟨-, rfl, -⟩ := Statement.eq_of_append_of_ends hword hname'.2 hy (by decide) h
  exact hdot rfl

/-- A creation is read in one way: as the namespace is either there or not, it names one parent. -/
theorem WrittenParent.name_eq {space : List Char} (hspace : IsIdentifier space)
    (h : WrittenParent space name text) (h' : WrittenParent space name' text')
    (heq : text ++ rest = text' ++ rest') : name = name' := by
  obtain @⟨blank, member, close, hblank, hmember, hname, hclose⟩ := h
  obtain @⟨blank', member', close', hblank', hmember', hname', hclose'⟩ := h'
  simp only [List.append_assoc, List.append_cancel_left_eq] at heq
  obtain ⟨y, tail, hy, hident, hdot⟩ := exists_cons_close hclose rest
  obtain ⟨y', tail', hy', hident', hdot'⟩ := exists_cons_close hclose' rest'
  rw [hy, hy'] at heq
  have hparents : member ++ (name ++ (".prototype".toList ++ y :: tail)) =
      member' ++ (name' ++ (".prototype".toList ++ y' :: tail')) := by
    obtain ⟨x, r, hx, hxblank⟩ :=
      exists_cons_parent hspace hname hmember (".prototype".toList ++ y :: tail)
    obtain ⟨x', r', hx', hxblank'⟩ :=
      exists_cons_parent hspace hname' hmember' (".prototype".toList ++ y' :: tail')
    rw [hx, hx'] at heq ⊢
    obtain ⟨-, rfl, rfl⟩ := Statement.eq_of_append_of_ends hblank hblank' hxblank hxblank' heq
    rfl
  have hnames (h : name ++ (".prototype".toList ++ y :: tail) =
      name' ++ (".prototype".toList ++ y' :: tail')) :
      name = name' :=
    (Statement.eq_of_append_of_ends hname.2 hname'.2 (by decide) (by decide) h).1
  rcases hmember with rfl | rfl <;> rcases hmember' with rfl | rfl
  · exact hnames hparents
  · exact absurd (by simpa using hparents) (prototype_ne_member hspace hname hname' hident hdot)
  · exact absurd (by simpa using hparents.symm)
      (prototype_ne_member hspace hname' hname hident' hdot')
  · exact hnames (List.append_cancel_left hparents)

/-- A mark that ends with a character that neither the mark nor a text behind it holds does not
start inside of the two, if the text ends with a character that is not in the mark. -/
theorem length_le_of_mark {s mark inside rest after : List Char} {x y : Char} (hne : s ≠ [])
    (hx : x ∉ mark) (hy : y ∉ mark ++ [x]) (hinside : x ∉ inside ++ [y])
    (h : s ++ ((mark ++ [x]) ++ rest) = ((mark ++ [x]) ++ (inside ++ [y])) ++ after) :
    ((mark ++ [x]) ++ rest).length ≤ after.length := by
  rcases List.append_eq_append_iff.mp h with ⟨u, hu, htail⟩ | ⟨u, -, rfl⟩
  · rcases List.append_eq_append_iff.mp htail with ⟨w, rfl, -⟩ | ⟨w, hw, rfl⟩
    · -- the second mark ends in the text, with its last character
      have hcount := congrArg (List.count x) hu
      simp only [List.count_append, List.count_eq_zero_of_not_mem hx, List.count_singleton_self]
        at hcount
      rw [← List.count_append, List.count_eq_zero_of_not_mem hinside] at hcount
      have hs : x ∉ s := List.count_eq_zero.mp (by omega)
      have hends {t : List Char} (ht : x ∉ t) : ∀ z ∈ t, (z != x) = true := fun z hz => by
        simpa using fun heq : z = x => ht (heq ▸ hz)
      have hsplit : mark ++ x :: (inside ++ [y]) = (s ++ mark) ++ x :: w := by simpa using hu
      obtain ⟨hmark, -, -⟩ :=
        Statement.eq_of_append_of_ends (hends hx) (hends (t := s ++ mark) (by simp [hx, hs]))
        (by simp) (by simp) hsplit
      exact absurd (List.append_left_eq_self.mp hmark.symm) hne
    · by_cases hnil : u = []
      · subst hnil
        simp [hw]
      · -- the text ends in the second mark
        have hlast := congrArg List.getLast? hu
        rw [← List.append_assoc, List.getLast?_concat, List.getLast?_append_of_ne_nil _ hnil]
          at hlast
        exact absurd (List.mem_append_left w (List.mem_of_getLast? hlast.symm)) (hw ▸ hy)
  · simp

/-- The only opening parenthesis of a creation is the one of its mark. -/
theorem WrittenParent.exists_inside {space : List Char} (hspace : ∀ x ∈ space, isIdent x = true)
    (h : WrittenParent space name text) :
    ∃ inside, '(' ∉ inside ++ [')'] ∧ text = ("Object.create".toList ++ ['(']) ++
      (inside ++ [')']) := by
  obtain @⟨blank, member, blank', hblank, hmember, hname, hblank'⟩ := h
  have hparenthesis : isIdent '(' = false := by decide
  have hmembers : '(' ∉ member := by
    rcases hmember with rfl | rfl
    · exact List.not_mem_nil
    · simpa using not_mem_name hspace hparenthesis
  refine ⟨blank ++ (member ++ (name ++ (".prototype".toList ++ blank'))), ?_, by simp⟩
  simp [not_mem_of_allBlank hblank, hmembers, not_mem_name hname.2 hparenthesis,
    not_mem_of_allBlank hblank', isBlank]

/-- The parent in the creation of an object is read. -/
theorem mem_groupTexts_inheritance {before : List Char} (hspace : IsIdentifier namespaceName.toList)
    (htext : WrittenParent namespaceName.toList name text) :
    name ∈ (Signature.inheritance namespaceName).groupTexts 1 (before ++ (text ++ rest)) := by
  have hafter : ((Cursor.start (before ++ (text ++ rest))).beyond before).fresh.after =
      text ++ rest :=
    Cursor.after_beyond rfl
  have hway := mem_ways_inheritance.mpr ⟨name, text, htext, ⟨rest, hafter.symm⟩, rfl⟩
  obtain ⟨m, hm⟩ := Option.ne_none_iff_exists'.mp (matchAt_ne_none hway)
  obtain ⟨name', text', htext', ⟨rest', hrest'⟩, hlast⟩ :=
    mem_ways_inheritance.mp (matchAt_sound hm).2
  obtain rfl := htext.name_eq hspace htext' (hafter.symm.trans hrest'.symm)
  refine mem_groupTexts (advances_inheritance _) (takes_of_matchAt hm) (by rw [hlast]; rfl) ?_
  rintro s e f - hs he hf
  obtain ⟨other, earlier, hearlier, ⟨after, heq⟩, rfl⟩ := mem_ways_inheritance.mp hf
  have hend : ((e.beyond earlier).record 1 other).after = after := Cursor.after_beyond heq.symm
  obtain ⟨inside, -, rfl⟩ := htext.exists_inside hspace.2
  obtain ⟨inside', hinside', rfl⟩ := hearlier.exists_inside hspace.2
  rw [hend, List.append_assoc]
  refine length_le_of_mark hs (by decide) (by decide) hinside' ?_
  rw [heq, he]
  simp

end Parents

theorem Text.beforeFirst_eq_self {sep s : List Char} {x : Char} (hx : x ∈ sep) (hs : x ∉ s) :
    beforeFirst sep s = s := by
  induction s with
  | nil => rfl
  | cons y s ih =>
      have hsep : ¬sep <+: y :: s := fun h => hs (h.subset hx)
      rw [beforeFirst, if_neg (by simpa using hsep), ih fun h => hs (List.mem_cons_of_mem _ h)]

theorem importedName_ofList {name : List Char} (h : IsIdentifier name) :
    importedName (String.ofList name) = String.ofList name := by
  have hblank : ' ' ∉ name := not_mem_name h.2 (by decide)
  rw [importedName, String.toList_ofList, Text.beforeFirst_eq_self (by decide) hblank]

/-- An identifier may be listed in an import. -/
theorem matchWhole_importItem_ne_none {name : List Char} (h : IsIdentifier name) :
    Statement.importItem.matchWhole name ≠ none := by
  have htakes := takes_identifier (c := .start name) (List.append_nil name).symm h (by simp)
  have hend : ((Cursor.start name).beyond name).holds .textEnd = true := by
    simp [Cursor.holds, Cursor.beyond, Cursor.start]
  exact matchAt_ne_none (mem_ways_seq.mpr ⟨_, mem_ways_seq.mpr ⟨_, List.mem_of_head? htakes,
    mem_ways_optional.mpr (.inr rfl)⟩, mem_ways_anchor.mpr ⟨hend, rfl⟩⟩)

/-- An identifier is imported if the file does not export it. -/
theorem symbol_mem_external {own : List String} {items : List (List Char)} {name : List Char}
    (h : name ∈ items) (hname : IsIdentifier name) (hown : String.ofList name ∉ own) :
    .symbol (String.ofList name) ∈ (Import.external own items).value := by
  induction items with
  | nil => cases h
  | cons item items ih =>
      rw [Import.external]
      rcases List.mem_cons.mp h with rfl | h
      · rw [if_neg (by simpa using matchWhole_importItem_ne_none hname),
          if_neg (by simpa [importedName_ofList hname] using hown)]
        exact List.mem_cons_self
      · split
        · exact ih h
        · split
          · exact ih h
          · exact List.mem_cons_of_mem _ (ih h)

/-- A name that a script refers to is among the names it seems to need. -/
theorem RefersTo.mem_candidates {namespaceName : String} {name text : List Char}
    (hspace : IsIdentifier namespaceName.toList) (h : RefersTo namespaceName.toList name text) :
    IsIdentifier name ∧ name ∈ Import.candidates namespaceName text := by
  simp only [Import.candidates, List.mem_append]
  cases h with
  | keyword hkeyword hbefore hne hgap hname hrest =>
      have hread := mem_groupTexts_keywordMember hkeyword hspace hbefore hne hgap hname hrest
      refine ⟨hname, ?_⟩
      simp only [classKeywords, List.mem_cons, List.not_mem_nil, or_false] at hkeyword
      rcases hkeyword with rfl | rfl
      · exact .inl (.inr hread)
      · exact .inr hread
  | parent htext =>
      refine ⟨?_, .inl (.inl (.inr (mem_groupTexts_inheritance hspace htext)))⟩
      obtain ⟨-, -, hname, -⟩ := htext
      exact hname

/-- No reference to a member of the namespace is missed: a name that a script refers to is an export
of the script itself or is imported exactly once. No import is there twice, and none names an export
of the script. -/
theorem references_resolved {namespaceName : String} (hne : namespaceName ≠ "")
    (hword : ∀ x ∈ namespaceName.toList, isWord x = true) (exports : List Export) (text : String) :
    (∀ name : String, RefersTo namespaceName.toList name.toList text.toList →
      name ∈ exports.map (·.publicName) ∨
        (resolveImports namespaceName exports none text).value.count (.symbol name) = 1) ∧
    (∀ item, .symbol item ∈ (resolveImports namespaceName exports none text).value →
      importedName item ∉ exports.map (·.publicName)) ∧
    (resolveImports namespaceName exports none text).value.Nodup := by
  have hspace : IsIdentifier namespaceName.toList := by
    refine ⟨by simpa using hne, fun x hx => ?_⟩
    simp [isIdent, hword x hx]
  have hresolved := @value_resolveImports namespaceName text exports none rfl rfl
  have hnodup : (resolveImports namespaceName exports none text).value.Nodup :=
    hresolved ▸ nodup_unique _
  refine ⟨?_, fun item hitem => importedName_notMem_own rfl rfl hitem, hnodup⟩
  intro name hrefers
  by_cases hown : name ∈ exports.map (·.publicName)
  · exact .inl hown
  · obtain ⟨hname, hneeded⟩ := hrefers.mem_candidates hspace
    have hmem := symbol_mem_external hneeded hname (by rwa [String.ofList_toList])
    rw [String.ofList_toList] at hmem
    refine .inr (List.count_eq_one_of_mem hnodup ?_)
    rw [hresolved, mem_unique]
    exact hmem

/-- The parent has the name of the namespace, and stands in the arguments of another reference. -/
theorem references_resolved_within :
    RefersTo "A".toList "A".toList
      "new A.B(Object.create( A.prototype ), c instanceof A.C)".toList ∧
      (resolveImports "A" [.plain "C"] none
        "new A.B(Object.create( A.prototype ), c instanceof A.C)").value.count
          (.symbol "A") = 1 := by
  have hparent : WrittenParent "A".toList "A".toList "Object.create( A.prototype )".toList :=
    @WrittenParent.intro _ _ [' '] [] [' '] (List.all_eq_true.mp (by decide)) (.inl rfl)
      ⟨by decide, List.all_eq_true.mp (by decide)⟩ (List.all_eq_true.mp (by decide))
  have hrefers : RefersTo "A".toList "A".toList
      "new A.B(Object.create( A.prototype ), c instanceof A.C)".toList :=
    @RefersTo.parent _ _ "new A.B(".toList _ ", c instanceof A.C)".toList hparent
  have hresolved :=
    (references_resolved (by decide) (List.all_eq_true.mp (by decide)) [.plain "C"] _).1 "A" hrefers
  exact ⟨hrefers, hresolved.resolve_left (by decide)⟩

end ScriptModules
