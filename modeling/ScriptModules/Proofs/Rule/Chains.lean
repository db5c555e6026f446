import ScriptModules.Proofs.Export.Chains
import ScriptModules.Proofs.Rule.Declarations
import ScriptModules.Proofs.Rule.SelfDeclarations
import ScriptModules.Proofs.Rule.Unwrapping

/-!
# Chains of assignments after the rules

Of a chain of assignments of a function to members of the namespace, one declaration should be left,
that of the first member. The rules make a declaration of every link and then take the keywords
inside the chain out again, but only where exactly one blank stands between the equals sign and the
keyword. White space around an equals sign is kept after it, so a link that is followed by another
amount of white space leaves the next one a declaration of its own.
-/

namespace ScriptModules

open Pattern Pattern.Node Text Statement Rule Relation

/-- The words of a text: its longest runs of word characters. -/
def wordsIn (s : List Char) : List (List Char) := words (s.map fun x => if isWord x then x else ' ')

section Words

variable {s t v : List Char} {y : Char}

theorem wordsIn_cons (hy : isWord y = false) (s : List Char) : wordsIn (y :: s) = wordsIn s := by
  rw [wordsIn, List.map_cons, hy, if_neg Bool.false_ne_true]
  exact words_cons_of_isBlank (by decide) _

theorem wordsIn_append (hs : ∀ x ∈ s, isWord x = false) (t : List Char) :
    wordsIn (s ++ t) = wordsIn t := by
  induction s with
  | nil => rfl
  | cons x s ih =>
      rw [List.cons_append, wordsIn_cons (hs x (by simp)),
        ih fun y hy => hs y (List.mem_cons_of_mem x hy)]

/-- A run of word characters is a word where another character follows. -/
theorem wordsIn_run (hne : v ≠ []) (hv : ∀ x ∈ v, isWord x = true) (hy : isWord y = false)
    (t : List Char) :
    wordsIn (v ++ y :: t) = v :: wordsIn t := by
  have hmap : v.map (fun x => if isWord x then x else ' ') = v :=
    (List.map_congr_left fun x hx => if_pos (hv x hx)).trans (List.map_id' v)
  have hsolid : IsSolid v := ⟨hne, fun x hx => isBlank_of_isIdent (by simp [isIdent, hv x hx])⟩
  rw [wordsIn, List.map_append, List.map_cons, hmap, hy, if_neg Bool.false_ne_true,
    words_append_blank (by decide), words_of_isSolid hsolid]
  rfl

end Words

/-- The start of a module statement: its first word, and after blanks a brace or the start of a
name. -/
def headingSpot : Spot := fun _ w _ =>
  ∃ v ∈ heads, ∃ blank y, AllBlank blank ∧ (blank ≠ [] ∨ y = '\x7b') ∧
    (y = '\x7b' ∨ run.contains y = true) ∧
    w = v ++ (blank ++ [y])

section Headings

variable {spot : Spot} {left : Option Char} {s t v blank rest text : List Char} {z : Char}
  {c : Cursor} {m : Match} {n : Node}

theorem bare_of_free (h : Free spot left (s ++ t) rest) (ht : t ≠ []) :
    Bare spot (lastOf left s) (t ++ rest) := by
  induction s generalizing left with
  | nil =>
      obtain ⟨x, t, rfl⟩ := List.exists_cons_of_ne_nil ht
      exact h.1
  | cons x s ih => exact ih h.2

/-- A pattern whose matches start at spots leaves a text without spots as it is. -/
theorem replace_eq_self_of_free (hn : n.Advances)
    (hspot : ∀ {c m}, n.matchAt false c = some m → ¬Bare spot c.before.head? c.after)
    (h : Free spot none text []) (f : Match → List Char) : n.replace none f text = text := by
  refine replace_eq_self hn fun a b hab => ?_
  rw [Option.eq_none_iff_forall_not_mem]
  intro m hm
  have hafter : ((Cursor.start text).beyond a).after = b := Cursor.after_beyond hab
  have hshorter := length_after_lt_of_matchAt hn hm
  rw [hafter] at hshorter
  refine hspot hm ?_
  rw [head?_before_beyond, hafter, ← List.append_nil b]
  exact bare_of_free (hab ▸ h) (List.ne_nil_of_length_pos (by omega))

theorem not_bare_heading (v : List Char) (hv : v ∈ heads) (hblank : AllBlank blank)
    (hgap : blank ≠ [] ∨ z = '\x7b') (hz : z = '\x7b' ∨ run.contains z = true)
    (h : v ++ (blank ++ [z]) <+: s) : ¬Bare headingSpot left s := by
  intro hbare
  obtain ⟨rest, rfl⟩ := h
  exact hbare _ rest rfl ⟨v, hv, blank, z, hblank, hgap, hz, rfl⟩

theorem not_bare_of_importLine (h : importLine.matchAt false c = some m) :
    ¬Bare headingSpot c.before.head? c.after := by
  obtain ⟨head, line, himport, -, -, hafter⟩ := exists_line_of_matchAt h
  cases himport with
  | @intro blank clause hne hblank hclause =>
      obtain ⟨y, next, hy, rfl⟩ := hclause.head
      refine not_bare_heading "import".toList (by decide) hblank (.inl hne) hy ?_
      exact ⟨next ++ ("from".toList ++ (line ++ m.last.after)), by rw [hafter]; simp⟩

theorem not_bare_of_exported {k : Node} {f : Match → List Char} {words : List String}
    (hk : ReadsKeyword k f words) (h : (exported k).matchAt false c = some m) :
    ¬Bare headingSpot c.before.head? c.after := by
  obtain ⟨c₁, hedge, h⟩ := mem_ways_seq.mp (matchAt_sound h).2
  obtain ⟨-, rfl⟩ := mem_ways_anchor.mp hedge
  obtain ⟨c₂, hword, h⟩ := mem_ways_seq.mp h
  obtain ⟨c₃, hspace, h⟩ := mem_ways_seq.mp h
  obtain ⟨c₄, hkeyword, -⟩ := mem_ways_seq.mp h
  obtain ⟨w, hw, hlead, -⟩ := hk.sound hkeyword
  obtain ⟨hne, hletters⟩ := word_of_mem_keywords (hk.subset hw)
  obtain ⟨y, next, hy⟩ := List.exists_cons_of_ne_nil hne
  have hrun : Statement.run.contains y = true := by
    have hyword := hletters y (by simp [hy])
    simp [Statement.run, CharSet.contains_identOr, isIdent, hyword]
  refine not_bare_heading "export".toList (by decide) (allBlank_singleton (x := ' ') (by decide))
    (.inl (by simp))
    (.inr hrun) ⟨next ++ c₄.after, ?_⟩
  rw [← Cursor.after_fresh c, (passes_word hword).1, (passes_char hspace).1, hlead.after, hy]
  simp

theorem not_bare_of_exportList (h : exportList.matchAt false c = some m) :
    ¬Bare headingSpot c.before.head? c.after := by
  obtain ⟨start, rest, hopens, hbrace, -, hafter⟩ := exists_list_of_matchAt h
  obtain ⟨blank, names, hblank, rfl⟩ := hopens.exists_brace hbrace
  refine not_bare_heading "export".toList (by decide) hblank (.inr rfl) (.inl rfl) ?_
  exact ⟨names ++ '\x7d' :: (rest ++ m.last.after), by rw [hafter]; simp⟩

/-- The rules for module statements leave a text without the start of one as it is. -/
theorem moduleStatements_eq_self (h : Free headingSpot none text []) :
    applyAll moduleStatements text = .ok text := by
  have hvar : "var" ∈ keywords := by decide
  have hfunction : "function" ∈ keywords := by decide
  rw [applyAll_moduleStatements, declarationsStripped, Node.remove, Node.remove]
  rw [replace_eq_self_of_free strips_importLine.advances not_bare_of_importLine h]
  rw [replace_eq_self_of_free (strips_exported (readsKeyword_word hvar)).advances
    (not_bare_of_exported (readsKeyword_word hvar)) h]
  rw [replace_eq_self_of_free (strips_exported (readsKeyword_word hfunction)).advances
    (not_bare_of_exported (readsKeyword_word hfunction)) h]
  rw [replace_eq_self_of_free (strips_exported readsKeyword_group).advances
    (not_bare_of_exported readsKeyword_group) h]
  rw [replace_eq_self_of_free strips_exportList.advances not_bare_of_exportList h]

/-- No statement starts with a name that is followed by something else. -/
theorem free_heading_run {b : List Char} (hv : ∀ x ∈ v, isIdent x = true) (hblank : AllBlank b)
    (hz : isIdent z = false ∧ isBlank z = false ∧ z ≠ '\x7b' ∧ run.contains z = false) :
    Free headingSpot left v (b ++ z :: rest) := by
  induction v generalizing left with
  | nil => trivial
  | cons x v ih =>
      refine ⟨?_, ih fun y hy => hv y (List.mem_cons_of_mem x hy)⟩
      rintro w r hsplit ⟨u, hu, blank', y, hblank', hgap, hy, rfl⟩
      have huident : ∀ x ∈ u, isIdent x = true :=
        fun x hx => by simp [isIdent, (words_heads u hu).2 x hx]
      obtain ⟨z₁, t₁, ht₁, hz₁⟩ := exists_cons_blank hblank (.inr hz.1) rest
      obtain ⟨z₂, t₂, ht₂, hz₂⟩ :=
        exists_cons_blank (y := y) hblank' (hgap.imp_right fun h => by rw [h]; decide) r
      have heq : (x :: v) ++ (b ++ z :: rest) = u ++ (blank' ++ y :: r) := by simpa using hsplit
      rw [ht₁, ht₂] at heq
      obtain ⟨-, rfl, rfl⟩ := eq_of_append_of_ends hv huident hz₁ hz₂ heq
      have hyblank : isBlank y = false := by
        rcases hy with rfl | hy
        · decide
        · exact isBlank_of_run hy
      obtain ⟨-, rfl, -⟩ := eq_of_append_of_ends hblank hblank' hz.2.1 hyblank (ht₁.trans ht₂.symm)
      rcases hy with hy | hy
      · exact hz.2.2.1 hy
      · rw [hz.2.2.2] at hy
        cases hy

theorem free_heading_of_forall (hs : ∀ x ∈ s, isWord x = false) : Free headingSpot left s rest := by
  induction s generalizing left with
  | nil => trivial
  | cons x s ih =>
      refine ⟨?_, ih fun y hy => hs y (List.mem_cons_of_mem x hy)⟩
      rintro w r hsplit ⟨u, hu, blank, y, -, -, -, rfl⟩
      obtain ⟨hne, hword⟩ := words_heads u hu
      obtain ⟨x', u, rfl⟩ := List.exists_cons_of_ne_nil hne
      have hx := hword x (by rw [(List.cons.inj hsplit).1]; simp)
      rw [hs x (by simp)] at hx
      cases hx

end Headings

/-- The function that a chain assigns. -/
def assignedFunction : List Char := "function () \x7b\x7d;".toList

/-- The chain in which the links of the given members are declarations. -/
def partlyDeclared (namespaceName : String) (members : List String) : List Link → List Char
  | [] => assignedFunction
  | l :: links =>
    (if l.name ∈ members then declaration l.name.toList ++ l.after else l.written namespaceName) ++
      partlyDeclared namespaceName members links

/-- The chain in which all links are declarations, the first one with its keyword only if
`shown`. -/
def opened (shown : Bool) : List Link → List Char
  | [] => assignedFunction
  | l :: links =>
    (if shown then keyword ++ [' '] else []) ++
      (l.name.toList ++ ' ' :: '=' :: (l.after ++ opened true links))

/-- The chain after the rules. Inside, a link has lost its keyword if a single blank stands before
it. -/
def shortened (shown : Bool) : List Link → List Char
  | [] => assignedFunction
  | l :: links =>
    (if shown then keyword ++ [' '] else []) ++
      (l.name.toList ++ ' ' :: '=' :: (l.after ++ shortened (l.after != [' ']) links))

section Rules

variable {namespaceName : String} {members : List String} {left : Option Char}
  {links : List Link} {l : Link}

/-- No module statement starts in a chain. -/
theorem free_heading_chain (hname : ∀ x ∈ namespaceName.toList, isIdent x = true)
    (links : List Link) :
    Free headingSpot left (chain namespaceName assignedFunction links) [] := by
  induction links generalizing left with
  | nil =>
      have hletters : ∀ x ∈ "function".toList, isIdent x = true := List.all_eq_true.mp (by decide)
      have hsplit : assignedFunction = "function".toList ++ " () \x7b\x7d;".toList := by decide
      have hrest : ∀ x ∈ " () \x7b\x7d;".toList, isWord x = false := by
        have hall : " () \x7b\x7d;".toList.all (fun x => !isWord x) = true := by decide
        simpa using hall
      rw [chain, hsplit]
      exact free_append (free_heading_run (b := [' ']) (z := '(') hletters
        (allBlank_singleton (by decide)) (by decide))
        (free_heading_of_forall hrest)
  | cons l links ih =>
      have hdot : ∀ x ∈ ['.'], isWord x = false := fun x hx => by
        rw [List.mem_singleton.mp hx]
        decide
      have hequals : ∀ x ∈ l.before ++ '=' :: l.after, isWord x = false := by
        intro x hx
        rcases List.mem_append.mp hx with hx | hx
        · exact isWord_of_isBlank (l.isBlank_before x hx)
        · rcases List.mem_cons.mp hx with rfl | hx
          · decide
          · exact isWord_of_isBlank (l.isBlank_after x hx)
      refine free_append
        (free_append (free_heading_run (b := []) hname allBlank_nil (by decide)) ?_) ih
      refine free_append (s := ['.']) (free_heading_of_forall hdot) ?_
      refine free_append ?_ (free_heading_of_forall hequals)
      rw [List.append_assoc, List.cons_append]
      exact free_heading_run l.isIdent_name l.isBlank_before (by decide)

/-- After an equals sign in a chain come blanks and the rest of the chain. -/
theorem exists_of_equals_chain {p q : List Char}
    (hname : ∀ x ∈ namespaceName.toList, isIdent x = true)
    (h : chain namespaceName assignedFunction links = p ++ '=' :: q) :
    ∃ blank rest, AllBlank blank ∧ q = blank ++ chain namespaceName assignedFunction rest := by
  induction links generalizing p with
  | nil =>
      have hmem : '=' ∈ assignedFunction := by
        rw [show assignedFunction = p ++ '=' :: q from h]
        simp
      exact absurd hmem (by decide)
  | cons l links ih =>
      have hbody : '=' ∉ namespaceName.toList ++ '.' :: (l.name.toList ++ l.before) :=
        equals_not_mem_target hname l.isIdent_name l.isBlank_before
      have hcut : p ++ '=' :: q = (namespaceName.toList ++ '.' :: (l.name.toList ++ l.before)) ++
          '=' :: (l.after ++ chain namespaceName assignedFunction links) := by
        rw [← h]
        simp [chain, Link.written, linkText]
      rcases eq_or_exists_of_append hcut hbody with ⟨rfl, -⟩ | ⟨z, rfl⟩
      · exact ⟨l.after, links, l.isBlank_after, (List.cons.inj (List.append_cancel_left hcut)).2⟩
      · -- the equals sign does not stand among the blanks
        have hrest : z ++ '=' :: q = l.after ++ chain namespaceName assignedFunction links := by
          simpa using hcut
        rcases List.append_eq_append_iff.mp hrest with ⟨u, hu, htail⟩ | ⟨u, rfl, hu⟩
        · cases u with
          | nil => exact ih (p := []) htail.symm
          | cons x u =>
              obtain rfl := (List.cons.inj htail).1
              exact absurd (l.isBlank_after '=' (by simp [hu])) (by decide)
        · exact ih hu

theorem any_head?_namespace (hne : namespaceName ≠ "")
    (hname : ∀ x ∈ namespaceName.toList, isIdent x = true) (rest : List Char) :
    (namespaceName.toList ++ rest).head?.any isIdent = true := by
  obtain ⟨x, r, hx⟩ :=
    List.exists_cons_of_ne_nil (show namespaceName.toList ≠ [] by simpa using hne)
  rw [hx]
  exact hname x (by simp [hx])

/-- The links of a chain and its function start with names. -/
theorem any_head?_partlyDeclared (hne : namespaceName ≠ "")
    (hname : ∀ x ∈ namespaceName.toList, isIdent x = true) (members : List String)
    (links : List Link) :
    (partlyDeclared namespaceName members links).head?.any isIdent = true := by
  cases links with
  | nil => exact (by decide : assignedFunction.head?.any isIdent = true)
  | cons l links =>
      rw [partlyDeclared]
      split
      · rfl
      · rw [Link.written, linkText, List.append_assoc]
        exact any_head?_namespace hne hname _

/-- After the equals sign of a link comes no other one. -/
theorem head?_after_ne (l : Link) {rest : List Char} (hrest : rest.head?.any isIdent = true) :
    (l.after ++ rest).head? ≠ some '=' := by
  intro hequals
  cases hafter : l.after with
  | nil =>
      rw [hafter, List.nil_append] at hequals
      rw [hequals] at hrest
      exact absurd hrest (by decide)
  | cons x after =>
      rw [hafter] at hequals
      obtain rfl : x = '=' := by simpa using hequals
      exact absurd (l.isBlank_after '=' (by simp [hafter])) (by decide)

theorem partlyDeclared_nil (links : List Link) :
    partlyDeclared namespaceName [] links = chain namespaceName assignedFunction links := by
  induction links with
  | nil => rfl
  | cons l links ih => rw [partlyDeclared, chain, ih, if_neg List.not_mem_nil]

theorem exists_cons_chain (hne : namespaceName ≠ "")
    (hname : ∀ x ∈ namespaceName.toList, isIdent x = true) (links : List Link) :
    ∃ x r, chain namespaceName assignedFunction links = x :: r ∧ isIdent x = true := by
  have hfirst := any_head?_partlyDeclared hne hname [] links
  rw [partlyDeclared_nil, Option.any_eq_true] at hfirst
  obtain ⟨x, hhead, hx⟩ := hfirst
  obtain ⟨r, hr⟩ := List.head?_eq_some_iff.mp hhead
  exact ⟨x, r, hr, hx⟩

/-- A chain holds no declaration after an equals sign. -/
theorem not_declared_chain (hne : namespaceName ≠ "")
    (hname : ∀ x ∈ namespaceName.toList, isIdent x = true) (links : List Link) :
    ¬"= var ".toList <:+: chain namespaceName assignedFunction links := by
  rintro ⟨p, q, h⟩
  have hsplit : chain namespaceName assignedFunction links =
      p ++ '=' :: ([' '] ++ 'v' :: 'a' :: 'r' :: ' ' :: q) := by
    rw [← h]
    simp
  obtain ⟨blank, rest, hblank, heq⟩ := exists_of_equals_chain hname hsplit
  obtain ⟨x, r, hr, hx⟩ := exists_cons_chain hne hname rest
  rw [hr] at heq
  have hsingle : AllBlank [' '] := allBlank_singleton (by decide)
  obtain ⟨-, rfl, rfl⟩ :=
    eq_of_append_of_ends hsingle hblank (by decide) (isBlank_of_isIdent hx) heq
  cases rest with
  | nil =>
      have hhead : assignedFunction.head? = some 'v' := congrArg List.head? hr
      exact absurd hhead (by decide)
  | cons l rest =>
      have hdot : namespaceName.toList ++ '.' :: (l.name.toList ++ (l.before ++ '=' :: (l.after ++
          chain namespaceName assignedFunction rest))) = keyword ++ ' ' :: q := by
        simpa [chain, Link.written, linkText] using hr
      exact absurd (eq_of_append_of_ends hname isIdent_keyword (by decide) (by decide) hdot).2.1
        (by decide)

/-- The rule for a member declares the link of that member. -/
theorem declared_partlyDeclared (hne : namespaceName ≠ "")
    (hname : ∀ x ∈ namespaceName.toList, isIdent x = true) {member : String}
    (hmember : ∀ x ∈ member.toList, isIdent x = true) (hleft : left.any isIdent = false)
    (links : List Link) :
    Declared namespaceName.toList member.toList left (partlyDeclared namespaceName members links)
      (partlyDeclared namespaceName (member :: members) links) := by
  have hspots := ofNamespace_assignmentSpot namespaceName.toList member.toList
  induction links generalizing left with
  | nil =>
      have hfree : Free (assignmentSpot namespaceName.toList member.toList) left
          assignedFunction [] :=
        hspots.free_of_no_dot hname (by decide) (show isIdent ';' = false by decide)
      exact exchanges_self hfree
  | cons l links ih =>
      have hafter : Declared namespaceName.toList member.toList (some '=')
          (l.after ++ partlyDeclared namespaceName members links)
          (l.after ++ partlyDeclared namespaceName (member :: members) links) := by
        have hend : (lastOf (some '=') l.after).any isIdent = false :=
          any_lastOf_blank (by decide) l.isBlank_after
        refine .append_of_free (hspots.free_of_no_dot hname (fun hdot => ?_) hend) (ih hend)
        exact absurd (l.isBlank_after _ hdot) (by decide)
      rw [partlyDeclared, partlyDeclared]
      by_cases hdone : l.name ∈ members
      · rw [if_pos hdone, if_pos (List.mem_cons_of_mem _ hdone), List.append_assoc,
          List.append_assoc]
        exact .append_of_free (free_declaration hname l.isIdent_name) (by simpa using hafter)
      · have hsplit : ∀ rest, l.written namespaceName ++ rest =
            namespaceName.toList ++ '.' :: (l.name.toList ++ (l.before ++ ['='])) ++
              (l.after ++ rest) := by
          intro rest
          simp [Link.written, linkText]
        rw [if_neg hdone, hsplit]
        by_cases hsame : l.name = member
        · subst hsame
          rw [if_pos (by simp), List.append_assoc (declaration _)]
          have hspot : assignmentSpot namespaceName.toList l.name.toList left _
              (l.after ++ partlyDeclared namespaceName members links) :=
            ⟨hleft, ⟨l.before, l.isBlank_before, rfl⟩,
              head?_after_ne l (any_head?_partlyDeclared hne hname _ _)⟩
          exact .found hspot (by simpa using hafter)
        · rw [if_neg (by simp [hdone, hsame]), hsplit]
          have hdiffers : l.name.toList ≠ member.toList := fun h => hsame (String.toList_inj.mp h)
          exact .append_of_free
            (free_assignment hname (by simpa using hne) l.isIdent_name hmember hdiffers
            l.isBlank_before) (by simpa using hafter)

theorem foldl_declareMember_partlyDeclared (hne : namespaceName ≠ "")
    (hname : ∀ x ∈ namespaceName.toList, isIdent x = true) {names : List String}
    (hnames : ∀ name ∈ names, ∀ x ∈ name.toList, isIdent x = true) (members : List String)
    (links : List Link) :
    names.foldl (declareMember namespaceName) (partlyDeclared namespaceName members links) =
      partlyDeclared namespaceName (names.reverse ++ members) links := by
  induction names generalizing members with
  | nil => rfl
  | cons name names ih =>
      have hdeclared :=
        (declared_declareMember namespaceName name
          (partlyDeclared namespaceName members links)).unique
        (definite_assignmentSpot _ _)
          (declared_partlyDeclared hne hname (hnames name (by simp)) rfl links)
      rw [List.foldl_cons, hdeclared, ih fun n hn => hnames n (List.mem_cons_of_mem _ hn)]
      simp

theorem partlyDeclared_eq_opened (h : ∀ l ∈ links, l.name ∈ members) :
    partlyDeclared namespaceName members links = opened true links := by
  induction links with
  | nil => rfl
  | cons l links ih =>
      rw [partlyDeclared, opened, if_pos (h l (by simp)),
        ih fun l' hl' => h l' (List.mem_cons_of_mem l hl')]
      simp [declaration]

/-- With the rules for all of its members, every link of a chain becomes a declaration. -/
theorem foldl_declareMember_chain (hne : namespaceName ≠ "")
    (hname : ∀ x ∈ namespaceName.toList, isIdent x = true) (links : List Link) :
    (links.map Link.name).foldl (declareMember namespaceName)
      (chain namespaceName assignedFunction links) =
      opened true links := by
  have hnames : ∀ name ∈ links.map Link.name, ∀ x ∈ name.toList, isIdent x = true := by
    intro name hname
    obtain ⟨l, -, rfl⟩ := List.mem_map.mp hname
    exact l.isIdent_name
  rw [← partlyDeclared_nil, foldl_declareMember_partlyDeclared hne hname hnames]
  exact partlyDeclared_eq_opened fun l hl => by simpa using ⟨l, hl, rfl⟩

end Rules

section Cleaning

variable {left : Option Char} {s rest : List Char} {x : Char}

/-- No keyword inside a chain is found where no equals sign is. -/
theorem free_chainSpot (hs : '=' ∉ s) (hrest : rest.head? ≠ some '=') :
    Free chainSpot left s rest := by
  induction s generalizing left with
  | nil => trivial
  | cons x s ih =>
      obtain ⟨-, hs⟩ := not_or.mp (mt List.mem_cons.mpr hs)
      refine ⟨?_, ih hs⟩
      rw [bare_wordSpot_iff]
      rintro ⟨r, hr⟩
      have hhead : (s ++ rest).head? = some '=' := by
        rw [← (List.cons.inj hr).2]
        rfl
      cases s with
      | nil => exact hrest hhead
      | cons y s =>
          obtain rfl : y = '=' := by simpa using hhead
          simp at hs

theorem opened_true (l : Link) (links : List Link) :
    opened true (l :: links) = keyword ++ ' ' :: opened false (l :: links) := by
  simp [opened]

theorem any_head?_opened (shown : Bool) (links : List Link) :
    (opened shown links).head?.any isIdent = true := by
  cases links with
  | nil => exact (by decide : assignedFunction.head?.any isIdent = true)
  | cons l links =>
      obtain ⟨x, r, hx⟩ := List.exists_cons_of_ne_nil l.ne_nil
      cases shown with
      | true => rfl
      | false =>
          rw [opened, hx]
          exact l.isIdent_name x (by simp [hx])

/-- Where other blanks than a single one come after an equals sign, no keyword is found. -/
theorem not_chained_after (l : Link) (hother : l.after ≠ [' ']) (links : List Link) :
    ¬chainedKeyword <+: ' ' :: '=' :: (l.after ++ opened true links) := by
  rintro ⟨r, hr⟩
  have hrest : ' ' :: (keyword ++ ' ' :: r) = l.after ++ opened true links := by simpa using hr
  have hhead := any_head?_opened true links
  cases hafter : l.after with
  | nil =>
      rw [hafter, List.nil_append] at hrest
      rw [← hrest] at hhead
      exact absurd (show isIdent ' ' = true from hhead) (by decide)
  | cons x after =>
      rw [hafter] at hrest hother
      obtain ⟨rfl, hnext⟩ := List.cons.inj hrest
      cases after with
      | nil => exact hother rfl
      | cons y after =>
          obtain rfl : 'v' = y := (List.cons.inj hnext).1
          exact absurd (l.isBlank_after 'v' (by simp [hafter])) (by decide)

/-- Of a chain of declarations, the keywords that come after a single blank are taken out. -/
theorem exchanges_opened (shown : Bool) (links : List Link) :
    Exchanges chainSpot [' ', '=', ' '] left (opened shown links) (shortened shown links) := by
  induction links generalizing left shown with
  | nil => exact exchanges_self (free_chainSpot (show '=' ∉ assignedFunction by decide) (by simp))
  | cons l links ih =>
      have hblank : '=' ∉ l.after := not_mem_of_allBlank l.isBlank_after (by decide)
      have hname : '=' ∉ (if shown then keyword ++ [' '] else []) ++ l.name.toList := by
        intro hmem
        rcases List.mem_append.mp hmem with hmem | hmem
        · cases shown <;> simp at hmem
        · exact absurd (l.isIdent_name _ hmem) (by decide)
      have hafter : Exchanges chainSpot [' ', '=', ' '] (some '=') (l.after ++ opened true links)
          (l.after ++ shortened true links) := by
        refine .append_of_free (free_chainSpot hblank fun hequals => ?_) (ih true)
        have hhead := any_head?_opened true links
        rw [hequals] at hhead
        exact absurd hhead (by decide)
      have hequals :
          Exchanges chainSpot [' ', '=', ' '] (some ' ') ('=' :: (l.after ++ opened true links))
          ('=' :: (l.after ++ shortened true links)) :=
            .copied (bare_of_ne_blank (by decide)) hafter
      rw [opened, shortened, ← List.append_assoc, ← List.append_assoc]
      refine .append_of_free (free_chainSpot hname (by simp)) ?_
      by_cases hsingle : l.after = [' ']
      · rw [hsingle] at hequals ⊢
        cases links with
        | nil => exact .copied (bare_wordSpot_iff.mpr (by decide)) hequals
        | cons l' links =>
            rw [opened_true]
            exact .found (w := chainedKeyword) rfl (ih false)
      · rw [bne_iff_ne.mpr hsingle]
        exact .copied (bare_wordSpot_iff.mpr (not_chained_after l hsingle links)) hequals

end Cleaning

section Remaining

variable {namespaceName : String} {body text : List Char} {links : List Link} {l : Link}

/-- The rules that drop the namespace leave a text without dots as it is. -/
theorem namespaceDropping_eq_self (hname : ∀ x ∈ namespaceName.toList, isIdent x = true)
    (hdot : '.' ∉ text) (hend : (lastOf none text).any isIdent = false) :
    applyAll (namespaceDropping namespaceName) text = .ok text := by
  have hself : ∀ tail out, Exchanges (memberSpot namespaceName.toList tail) out none text text :=
    fun tail _ =>
    exchanges_self ((ofNamespace_memberSpot _ tail).free_of_no_dot hname hdot hend)
  have hmath := (reads_member_word namespaceName "Math.").replace_eq (definite_memberSpot _ _)
    (hself _ "_Math.".toList)
  have hmember := (reads_member namespaceName).replace_eq (definite_memberSpot _ _) (hself _ [])
  rw [namespaceDropping, applyAll_cons, apply_replacing, hmath]
  change applyAll [removing (Signature.member namespaceName)] text = _
  rw [applyAll_cons, apply_removing, Node.remove, hmember]
  rfl

/-- A declaration of a name by itself ends with the name and a semicolon. -/
theorem exists_of_selfDeclaration {c d : Cursor} (h : d ∈ selfDeclaration.ways c) :
    ∃ s x, isIdent x = true ∧ c.after = s ++ x :: ';' :: d.after := by
  obtain ⟨-, gap, name, text, -, @⟨blank, blank', hname, -, -⟩, ⟨rest, hrest⟩, rfl⟩ :=
    mem_ways_selfDeclaration.mp h
  have hend : ((c.beyond _).record 1 name).after = rest := Cursor.after_beyond hrest.symm
  obtain ⟨t, x, rfl⟩ := (List.eq_nil_or_concat' name).resolve_left hname.1
  refine ⟨"var".toList ++ (gap ++ ((t ++ [x]) ++ (blank ++ (['='] ++ (blank' ++ t))))), x,
    hname.2 x (by simp), ?_⟩
  rw [hend, ← hrest]
  simp

/-- The rule for declarations of a name by itself leaves a text whose only semicolon follows a
brace. -/
theorem selfDeclarations_eq_self (hbody : ';' ∉ body) :
    applyAll selfDeclarations (body ++ ['\x7d', ';']) = .ok (body ++ ['\x7d', ';']) := by
  have hself : selfDeclaration.remove (body ++ ['\x7d', ';']) = body ++ ['\x7d', ';'] := by
    refine replace_eq_self advances_selfDeclaration fun a b hab => ?_
    rw [Option.eq_none_iff_forall_not_mem]
    intro m hm
    obtain ⟨s, x, hx, hafter⟩ := exists_of_selfDeclaration (matchAt_sound hm).2
    have hb : ((Cursor.start (body ++ ['\x7d', ';'])).beyond a).after = b := Cursor.after_beyond hab
    rw [Cursor.after_fresh, hb] at hafter
    have hcut : (a ++ (s ++ [x])) ++ ';' :: m.last.after = (body ++ ['\x7d']) ++ ';' :: [] := by
      rw [hafter] at hab
      simpa using hab.symm
    have hmark : ';' ∉ body ++ ['\x7d'] := by simpa using hbody
    rcases eq_or_exists_of_append hcut hmark with ⟨heq, -⟩ | ⟨u, hu⟩
    · rw [← List.append_assoc] at heq
      obtain rfl : x = '\x7d' := by simpa using (List.append_inj' heq rfl).2
      exact absurd hx (by decide)
    · rw [hu] at hcut
      simp at hcut
  rw [selfDeclarations, applyAll_cons, apply_removing, hself]
  rfl

theorem exists_shortened (shown : Bool) (links : List Link) :
    ∃ body, shortened shown links = body ++ ['\x7d', ';'] ∧ ';' ∉ body ∧ '.' ∉ body := by
  induction links generalizing shown with
  | nil => exact ⟨"function () \x7b".toList, by rw [shortened]; decide, by decide, by decide⟩
  | cons l links ih =>
      obtain ⟨body, hbody, hstop, hdot⟩ := ih (l.after != [' '])
      have hparts : ∀ x ∈ (if shown then keyword ++ [' ']
          else []) ++ (l.name.toList ++ ' ' :: '=' :: l.after),
          isIdent x = true ∨ isBlank x = true ∨ x = '=' := by
        intro x hx
        simp only [List.mem_append, List.mem_cons] at hx
        rcases hx with hx | hx | rfl | rfl | hx
        · have hall : (keyword ++ [' ']).all (fun x => isIdent x || isBlank x) = true := by decide
          cases shown with
          | true => exact (Bool.or_eq_true _ _ ▸ List.all_eq_true.mp hall x hx).imp_right .inl
          | false => simp at hx
        · exact .inl (l.isIdent_name x hx)
        · exact .inr (.inl (by decide))
        · exact .inr (.inr rfl)
        · exact .inr (.inl (l.isBlank_after x hx))
      refine ⟨(if shown then keyword ++ [' '] else []) ++
        (l.name.toList ++ ' ' :: '=' :: l.after) ++ body, ?_, ?_, ?_⟩
      · rw [shortened, hbody]
        simp
      · rw [List.mem_append, not_or]
        exact ⟨fun hmem => absurd (hparts _ hmem) (by decide), hstop⟩
      · rw [List.mem_append, not_or]
        exact ⟨fun hmem => absurd (hparts _ hmem) (by decide), hdot⟩

/-- A chain has no wrapper. -/
theorem closerOf_chain (hne : namespaceName ≠ "")
    (hname : ∀ x ∈ namespaceName.toList, isIdent x = true) (links : List Link) :
    closerOf (chain namespaceName assignedFunction links) = .ok none := by
  have hnone :
      bareOpener.matchStart (gap.remove (chain namespaceName assignedFunction links)) = none := by
    rw [Option.eq_none_iff_forall_not_mem]
    intro m hm
    obtain ⟨c₁, hstart, h⟩ := mem_ways_seq.mp (matchAt_sound hm).2
    obtain ⟨-, rfl⟩ := mem_ways_anchor.mp hstart
    obtain ⟨c₂, hopen, -⟩ := mem_ways_seq.mp h
    obtain ⟨x, r, hr, hx⟩ := exists_cons_chain hne hname links
    have hparen : gap.remove (chain namespaceName assignedFunction links) =
        "(function(".toList ++ c₂.after :=
      (passes_word hopen).1
    rw [remove_gap, hr, List.filter_cons_of_pos (by simp [isBlank_of_isIdent hx])] at hparen
    rw [(List.cons.inj hparen).1] at hx
    exact absurd hx (by decide)
  rw [closerOf, hnone]
  rfl

/-- The rules for a chain and its members leave it with the keywords that were not taken out. -/
theorem applyAll_standard_chain (hne : namespaceName ≠ "")
    (hname : ∀ x ∈ namespaceName.toList, isIdent x = true) (links : List Link) :
    applyAll (standard namespaceName (links.map fun l => .plain l.name) none)
      (chain namespaceName assignedFunction links) = .ok (shortened true links) := by
  have hplain : (links.map fun l => Export.plain l.name).filterMap Export.plain? =
      links.map Link.name := by
    rw [List.filterMap_map]
    exact congrFun (List.filterMap_eq_map (f := Link.name)) links
  have hmembers : ∀ member ∈ links.map Link.name, (∀ x ∈ member.toList, isIdent x = true) ∧
      member ≠ "var" := by
    intro member hmember
    obtain ⟨l, -, rfl⟩ := List.mem_map.mp hmember
    exact ⟨l.isIdent_name, l.ne_var⟩
  obtain ⟨hdeclare, hfree⟩ := absent_keyword (not_declared_chain hne hname links)
  obtain ⟨r, hr, hsteps, hlast⟩ :=
    applyAll_declarations hne hname (hplain ▸ hmembers) .refl hdeclare hfree
  have hopened := hdeclare.foldl_declareMember hname hmembers
  rw [hplain, foldl_declareMember_chain hne hname] at hsteps
  rw [foldl_declareMember_chain hne hname] at hopened
  have hshort : Exchanges chainSpot [' ', '=', ' '] none (opened true links)
      (shortened true links) :=
    exchanges_opened true links
  obtain rfl : shortened true links = r :=
    eq_of_shortens (shortens_of_exchanges hshort []) hsteps (hopened.not_chained hshort) hlast
  obtain ⟨body, hbody, hstop, hdot⟩ := exists_shortened true links
  have hend : (lastOf none (shortened true links)).any isIdent = false := by
    rw [hbody, lastOf_append]
    exact (by decide : isIdent ';' = false)
  have hdots : '.' ∉ shortened true links := by
    rw [hbody]
    simpa using hdot
  rw [standard, applyAll_append, applyAll_append, applyAll_append, applyAll_append,
    moduleStatements_eq_self (free_heading_chain hname links)]
  change ((applyAll (declarations namespaceName _) _ >>= applyAll []) >>= _) >>= _ = _
  rw [hr]
  change (applyAll (namespaceDropping namespaceName) _) >>= _ = _
  rw [namespaceDropping_eq_self hname hdots hend]
  change applyAll selfDeclarations _ = _
  rw [hbody]
  exact selfDeclarations_eq_self hstop

theorem wordsIn_shortened (shown : Bool) (l : Link) (links : List Link) :
    wordsIn (shortened shown (l :: links)) =
      (if shown then [keyword] else []) ++ l.name.toList :: wordsIn
        (shortened (l.after != [' ']) links) := by
  have hblank : ∀ x ∈ l.after, isWord x = false :=
    fun x hx => isWord_of_isBlank (l.isBlank_after x hx)
  have hlink :
      wordsIn (l.name.toList ++ ' ' :: '=' :: (l.after ++ shortened (l.after != [' ']) links)) =
      l.name.toList :: wordsIn (shortened (l.after != [' ']) links) := by
    rw [wordsIn_run l.ne_nil l.isWord_name (by decide), wordsIn_cons (by decide),
      wordsIn_append hblank]
  have hletters : ∀ x ∈ keyword, isWord x = true := List.all_eq_true.mp (by decide)
  cases shown with
  | true =>
      rw [shortened, if_pos rfl, if_pos rfl]
      change wordsIn (keyword ++ ' ' :: (l.name.toList ++ _)) = _
      rw [wordsIn_run (by simp) hletters (by decide), hlink]
      rfl
  | false => exact hlink

/-- The keyword is left at the first link and at each link that does not come after a single
blank. -/
theorem count_shortened (shown : Bool) (l : Link) (links : List Link) :
    (wordsIn (shortened shown (l :: links))).count keyword =
      shown.toNat + (l :: links).dropLast.countP fun l => l.after != [' '] := by
  have hname : ∀ l : Link, l.name.toList ≠ keyword := fun l h => l.ne_var (String.toList_inj.mp h)
  have hfirst : ∀ shown : Bool, (if shown then [keyword] else []).count keyword = shown.toNat := by
    rintro (_ | _) <;> rfl
  induction links generalizing shown l with
  | nil =>
      have hfunction : (wordsIn assignedFunction).count keyword = 0 := by decide
      rw [wordsIn_shortened, List.count_append, hfirst, List.count_cons_of_ne (hname l),
        shortened, hfunction]
      rfl
  | cons l' links ih =>
      rw [wordsIn_shortened, List.count_append, hfirst, List.count_cons_of_ne (hname l), ih,
        List.dropLast_cons_cons, List.countP_cons]
      cases l.after != [' '] <;> simp [Nat.add_comm]

end Remaining

/-- A chain of assignments of a function exports its members. After the rules its first member is
declared, and the keyword stands once more for each link but the last whose equals sign is not
followed by exactly one blank. -/
theorem chain_declared {namespaceName : String} (hne : namespaceName ≠ "")
    (hname : ∀ x ∈ namespaceName.toList, isWord x = true) (baseName : String) {first : Link}
    {others : List Link} (hnodup : ((first :: others).map Link.name).Nodup) {text : String}
    (htext : text.toList = chain namespaceName assignedFunction (first :: others))
    (hclassic : (classify namespaceName text).dialect = .classic) :
    let exports :=
      (resolveExports namespaceName baseName none (classify namespaceName text) text).value
    exports = (first :: others).map (fun l => .plain l.name) ∧
      ∃ rules result, (buildRules namespaceName exports none text).run.value = .ok rules ∧
        applyRules rules text = .ok result ∧
        [keyword, first.name.toList] <+: wordsIn result.toList ∧
        (wordsIn result.toList).count keyword = 1 + (first :: others).dropLast.countP fun l =>
          l.after != [' '] := by
  intro exports
  have hident : ∀ x ∈ namespaceName.toList, isIdent x = true :=
    fun x hx => by simp [isIdent, hname x hx]
  have hexports : exports = (first :: others).map (fun l => .plain l.name) :=
    resolveExports_chain hne hident (by decide : '.' ∉ " () \x7b\x7d;".toList) (by decide) hnodup
      htext hclassic
  refine ⟨hexports, standard namespaceName exports none,
    String.ofList (shortened true (first :: others)), ?_, ?_, ?_, ?_⟩
  · refine Work.value_bind_eq_ok.mpr ⟨none, ?_, ?_⟩
    · rw [htext, closerOf_chain hne hident]
      rfl
    · simp
  · rw [applyRules, htext, hexports, applyAll_standard_chain hne hident]
    rfl
  · rw [String.toList_ofList, wordsIn_shortened]
    exact List.prefix_append _ _
  · rw [String.toList_ofList, count_shortened]
    rfl

/-- A link with a line break after its equals sign. -/
def lineBreakLink : Link :=
  ⟨"A", [], ['\n'], by decide, List.all_eq_true.mp (by decide), by decide, List.forall_mem_nil _,
    List.all_eq_true.mp (by decide)⟩

/-- A link with single blanks. -/
def blankLink : Link :=
  ⟨"B", [' '], [' '], by decide, List.all_eq_true.mp (by decide), by decide,
    List.all_eq_true.mp (by decide), List.all_eq_true.mp (by decide)⟩

/-- With a line break inside the chain, the second member gets a declaration too. -/
theorem chain_declared_lineBreak :
    let text := "Global.A=\nGlobal.B = function () \x7b\x7d;"
    let exports := (resolveExports "Global" "f" none (classify "Global" text) text).value
    exports = [.plain "A", .plain "B"] ∧
      ∃ rules result, (buildRules "Global" exports none text).run.value = .ok rules ∧
        applyRules rules text = .ok result ∧ ["var".toList, "A".toList] <+: wordsIn result.toList ∧
        (wordsIn result.toList).count "var".toList = 2 := by
  have hname : ∀ x ∈ "Global".toList, isWord x = true := List.all_eq_true.mp (by decide)
  have htext : "Global.A=\nGlobal.B = function () \x7b\x7d;".toList =
      chain "Global" assignedFunction [lineBreakLink, blankLink] := by decide
  obtain ⟨hexports, rules, result, hrules, hresult, hstart, hcount⟩ :=
    chain_declared (by decide) hname "f" (by decide) htext (by decide +kernel)
  exact ⟨hexports, rules, result, hrules, hresult, hstart, hcount.trans (by decide)⟩

/-- Without white space around the equals signs, each member of a chain gets a declaration. -/
theorem chain_declared_twice :
    let text := "Global.A=Global.B=function () \x7b\x7d;"
    let result := "var A =var B =function () \x7b\x7d;"
    (classify "Global" text).dialect = .classic ∧
      (resolveExports "Global" "f" none (classify "Global" text) text).value =
        [.plain "A", .plain "B"] ∧
      ((buildRules "Global" [.plain "A", .plain "B"] none text).run.value >>=
        fun rules => applyRules rules text) =
        .ok result ∧
      (wordsIn result.toList).count "var".toList = 2 := by
  decide +kernel

end ScriptModules
