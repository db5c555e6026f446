import ScriptModules.Proofs.Export.Chains

/-!
# Members that a script declares

A script declares a member of the namespace where a link to the member starts a chain, or goes on
with one, that assigns a function. The signature is searched from left to right, and each match is
read once more by itself, without what stands before it. Neither loses a declaration or makes one
up: inside a chain nothing but its links is one, and a chain is taken as long as it goes on. So the
exports are exactly the declared members, in the order in which they are first declared.
-/

namespace ScriptModules

open Pattern Pattern.Node Text

/-- The member is declared in the text after `before`, where no identifier ends. The text stands
after `left`. -/
def DeclaredAt (namespaceName : String) (left : Option Char) (text before name : List Char) :
    Prop :=
  ∃ rest, text = before ++ rest ∧ (lastOf left before).any isIdent = false ∧
    Assigns namespaceName name rest

/-- Place by place, the members declared in the text are `names`. -/
inductive DeclaredNames (namespaceName : String) : Option Char → List Char → List (List Char) → Prop
  | finished {left : Option Char} : DeclaredNames namespaceName left [] []
  | declared {left : Option Char} {x : Char} {text name : List Char} {names : List (List Char)}
      (hleft : left.any isIdent = false) (h : Assigns namespaceName name (x :: text))
      (hrest : DeclaredNames namespaceName (some x) text names) :
      DeclaredNames namespaceName left (x :: text) (name :: names)
  | other {left : Option Char} {x : Char} {text : List Char} {names : List (List Char)}
      (h : left.any isIdent = false → ∀ name, ¬Assigns namespaceName name (x :: text))
      (hrest : DeclaredNames namespaceName (some x) text names) :
        DeclaredNames namespaceName left (x :: text) names

section Occurrences

variable {namespaceName : String} {left : Option Char} {text before name : List Char}
  {names : List (List Char)} {x : Char}

theorem declaredAt_cons : DeclaredAt namespaceName left (x :: text) before name ↔
    (before = [] ∧ left.any isIdent = false ∧ Assigns namespaceName name (x :: text)) ∨
      ∃ before', before = x :: before' ∧ DeclaredAt namespaceName (some x) text before' name := by
  constructor
  · rintro ⟨rest, hsplit, hleft, hassigns⟩
    cases before with
    | nil =>
        rw [List.nil_append] at hsplit
        exact .inl ⟨rfl, hleft, hsplit ▸ hassigns⟩
    | cons y before =>
        obtain ⟨rfl, rfl⟩ := List.cons.inj hsplit
        exact .inr ⟨before, rfl, rest, rfl, hleft, hassigns⟩
  · rintro (⟨rfl, hleft, hassigns⟩ | ⟨before, rfl, rest, rfl, hleft, hassigns⟩)
    · exact ⟨x :: text, rfl, hleft, hassigns⟩
    · exact ⟨rest, rfl, hleft, hassigns⟩

theorem not_declaredAt_nil : ¬DeclaredAt namespaceName left [] before name := by
  rintro ⟨rest, hsplit, -, hassigns⟩
  obtain ⟨-, rfl⟩ := List.append_eq_nil_iff.mp hsplit.symm
  simpa using hassigns.dot_mem

/-- The names are those of all declarations. -/
theorem DeclaredNames.mem_iff (h : DeclaredNames namespaceName left text names) :
    name ∈ names ↔ ∃ before, DeclaredAt namespaceName left text before name := by
  induction h with
  | finished => simp [not_declaredAt_nil]
  | @declared left x text first names hleft h _ ih =>
      rw [List.mem_cons, ih]
      constructor
      · rintro (rfl | ⟨before, hbefore⟩)
        · exact ⟨[], declaredAt_cons.mpr (.inl ⟨rfl, hleft, h⟩)⟩
        · exact ⟨_, declaredAt_cons.mpr (.inr ⟨before, rfl, hbefore⟩)⟩
      · rintro ⟨before, hbefore⟩
        rcases declaredAt_cons.mp hbefore with ⟨-, -, h'⟩ | ⟨before, -, hbefore⟩
        · exact .inl (h'.name_eq h)
        · exact .inr ⟨before, hbefore⟩
  | other h _ ih =>
      rw [ih]
      constructor
      · rintro ⟨before, hbefore⟩
        exact ⟨_, declaredAt_cons.mpr (.inr ⟨before, rfl, hbefore⟩)⟩
      · rintro ⟨before, hbefore⟩
        rcases declaredAt_cons.mp hbefore with ⟨-, hleft, h'⟩ | ⟨before, -, hbefore⟩
        · exact absurd h' (h hleft name)
        · exact ⟨before, hbefore⟩

/-- A name that is listed before another one has a declaration before all declarations of that
one. -/
theorem DeclaredNames.exists_before {first second : List Char} {front back : List (List Char)}
    (h : DeclaredNames namespaceName left text names) (hsplit : names = front ++ first :: back)
    (hfront : second ∉ front) (hne : second ≠ first) :
    ∃ before, DeclaredAt namespaceName left text before first ∧
      ∀ before', DeclaredAt namespaceName left text before' second →
        before.length < before'.length := by
  induction h generalizing front with
  | finished => simp at hsplit
  | @declared left x text name names hleft h _ ih =>
      have hlater {before' : List Char}
          (hsecond : DeclaredAt namespaceName left (x :: text) before' second)
          (hname : second ≠ name) :
          ∃ before'', before' = x :: before'' ∧
            DeclaredAt namespaceName (some x) text before'' second := by
        rcases declaredAt_cons.mp hsecond with ⟨-, -, h'⟩ | hlater
        · exact absurd (h'.name_eq h) hname
        · exact hlater
      cases front with
      | nil =>
          obtain ⟨rfl, -⟩ := List.cons.inj hsplit
          refine ⟨[], declaredAt_cons.mpr (.inl ⟨rfl, hleft, h⟩), fun before' hsecond => ?_⟩
          obtain ⟨before'', rfl, -⟩ := hlater hsecond hne
          simp
      | cons other front =>
          obtain ⟨rfl, rfl⟩ := List.cons.inj hsplit
          obtain ⟨hother, hfront⟩ := not_or.mp (mt List.mem_cons.mpr hfront)
          obtain ⟨before, hbefore, hall⟩ := ih rfl hfront
          refine ⟨x :: before, declaredAt_cons.mpr (.inr ⟨before, rfl, hbefore⟩),
            fun before' hsecond => ?_⟩
          obtain ⟨before'', rfl, hrest⟩ := hlater hsecond hother
          exact Nat.succ_lt_succ (hall before'' hrest)
  | @other left x text names h _ ih =>
      obtain ⟨before, hbefore, hall⟩ := ih hsplit hfront
      refine ⟨x :: before, declaredAt_cons.mpr (.inr ⟨before, rfl, hbefore⟩),
        fun before' hsecond => ?_⟩
      rcases declaredAt_cons.mp hsecond with ⟨-, hleft, h'⟩ | ⟨before'', rfl, hrest⟩
      · exact absurd h' (h hleft second)
      · exact Nat.succ_lt_succ (hall before'' hrest)

end Occurrences

section Scanning

variable {namespaceName : String} {left : Option Char} {text rest s : List Char}
  {names names' : List (List Char)}

/-- Nothing is declared inside an identifier. -/
theorem DeclaredNames.append_ident (hleft : left.any isIdent = true)
    (hs : ∀ x ∈ s, isIdent x = true) (h : DeclaredNames namespaceName (lastOf left s) text names) :
    DeclaredNames namespaceName left (s ++ text) names := by
  induction s generalizing left with
  | nil => exact h
  | cons x s ih =>
      refine .other (fun hfalse => by simp [hleft] at hfalse) (ih (hs x (by simp)) ?_ h)
      exact fun y hy => hs y (List.mem_cons_of_mem _ hy)

/-- The name in a link is no namespace, as an equals sign follows it. -/
theorem not_assigns_of_name {name other before : List Char} (hname : ∀ x ∈ name, isIdent x = true)
    (hbefore : ∀ x ∈ before, isBlank x = true)
    (hident : ∀ x ∈ namespaceName.toList, isIdent x = true) :
    ¬Assigns namespaceName other (name ++ (before ++ '=' :: rest)) := by
  intro h
  obtain ⟨next, htext⟩ := h.exists_eq
  have hdot : isIdent '.' = false := by decide
  have hsame := congrArg (List.takeWhile isIdent) htext
  rw [takeWhile_append_of_head hname (not_isIdent_head_blank hbefore _),
    takeWhile_append_of_head hident (by simpa using hdot)] at hsame
  subst hsame
  have hnext := List.append_cancel_left htext
  cases before with
  | nil => exact absurd (List.cons.inj hnext).1 (by decide)
  | cons z before =>
      obtain rfl : z = '.' := (List.cons.inj hnext).1
      exact absurd (hbefore '.' (by simp)) (by decide)

section Named

variable (hne : namespaceName ≠ "") (hident : ∀ x ∈ namespaceName.toList, isIdent x = true)

include hne hident

/-- Nothing is declared at characters that are not of identifiers. -/
theorem DeclaredNames.append_other (hs : ∀ x ∈ s, isIdent x = false)
    (h : DeclaredNames namespaceName (lastOf left s) text names) :
    DeclaredNames namespaceName left (s ++ text) names := by
  induction s generalizing left with
  | nil => exact h
  | cons x s ih =>
      refine .other (fun _ name hassigns => ?_)
        (ih (fun y hy => hs y (List.mem_cons_of_mem _ hy)) h)
      obtain ⟨next, htext⟩ := hassigns.exists_eq
      obtain ⟨y, run, hy⟩ :=
        List.exists_cons_of_ne_nil (show namespaceName.toList ≠ [] by simpa using hne)
      rw [hy, List.cons_append, List.cons.injEq] at htext
      have hx := hs x (by simp)
      rw [htext.1, hident y (by simp [hy])] at hx
      cases hx

/-- In links before the keyword of a function, only the links declare a member. -/
theorem DeclaredNames.of_links (hword : rest.head?.any isWord = false)
    (hlinks : Links namespaceName ("function".toList ++ rest) text names)
    (hleft : left.any isIdent = false)
    (htail : ∀ left, DeclaredNames namespaceName left ("function".toList ++ rest) names') :
    DeclaredNames namespaceName left text (names ++ names') := by
  induction hlinks generalizing left with
  | nil => exact htail left
  | @cons name before after text names hname hbefore hafter hlinks ih =>
      have hassigns :
          Assigns namespaceName name (linkText namespaceName name before after ++ text) :=
        ⟨names, rest, hword, .cons hname hbefore hafter hlinks⟩
      obtain ⟨x, run, hx⟩ :=
        List.exists_cons_of_ne_nil (show namespaceName.toList ≠ [] by simpa using hne)
      obtain ⟨y, name, rfl⟩ := List.exists_cons_of_ne_nil hname.1
      have hsplit : linkText namespaceName (y :: name) before after ++ text =
          x :: (run ++ (['.'] ++ (y :: (name ++ ((before ++ '=' :: after) ++ text))))) := by
        simp [linkText, hx]
      rw [hsplit] at hassigns ⊢
      refine .declared hleft hassigns (.append_ident ?_ ?_ (.append_other hne hident ?_ (.other ?_
        (.append_ident ?_ ?_ (.append_other hne hident ?_ (ih ?_))))))
      · exact hident x (by simp [hx])
      · exact fun z hz => hident z (by simp [hx, hz])
      · exact List.forall_mem_singleton.mpr (by decide)
      · intro _ other
        simpa using not_assigns_of_name hname.2 hbefore hident
      · exact hname.2 y (by simp)
      · exact fun z hz => hname.2 z (List.mem_cons_of_mem _ hz)
      · refine List.forall_mem_append.mpr ⟨fun z hz => isIdent_of_isBlank (hbefore z hz), ?_⟩
        exact List.forall_mem_cons.mpr ⟨by decide, fun z hz => isIdent_of_isBlank (hafter z hz)⟩
      · simp only [lastOf_append, lastOf_cons]
        exact any_lastOf_blank (by decide) hafter

/-- The chains that are found from a cursor on hold the declarations after it. -/
theorem declaredNames_matchesAt (c : Cursor) : DeclaredNames namespaceName c.before.head? c.after
    (((Signature.classic namespaceName).matchesAt c).flatMap fun m =>
      (Signature.target namespaceName).groupTexts 1 (m.group 0)) := by
  have hn := advances_classic namespaceName
  induction c using scan_induction hn with
  | found c m hm ih =>
      obtain ⟨hleft, name, hassigns⟩ := assigns_of_mem_ways (matchAt_sound hm).2
      -- the match is the longest chain
      obtain ⟨w, names, rest, hc, hlinks, hword, hfinal, htakes⟩ :=
        exists_takes_classic hne hident hleft hassigns
      obtain rfl : m = ⟨c.fresh, c.fresh.beyond w⟩ := Option.some.inj (hm.symm.trans htakes.matchAt)
      have hgroup : Match.group ⟨c.fresh, c.fresh.beyond w⟩ 0 = w :=
        Match.group_zero_of_leads (Cursor.leads_beyond ⟨rest, hc.symm⟩)
      have hbefore : (c.fresh.beyond w).before.head? = some 'n' :=
        (head?_before_beyond ..).trans (hlinks.lastOf_function _)
      simp only [hbefore, Cursor.after_beyond hc] at ih
      rw [matchesAt_found hn hm, List.flatMap_cons, hgroup,
        groupTexts_target hne hident (by decide : '.' ∉ "function".toList) hlinks,
        ← Cursor.after_fresh, hc]
      refine .of_links hne hident hword (hlinks.append rest) hleft fun left => ?_
      have hletters : ∀ x ∈ "unction".toList, isIdent x = true := List.all_eq_true.mp (by decide)
      exact .other (fun _ => hfinal) (.append_ident (by decide) hletters ih)
  | skipped c x rest hm hx ih =>
      rw [matchesAt_skipped hn hm hx, hx]
      rw [Cursor.after_beyond hx] at ih
      refine .other (fun hleft name hassigns => ?_) ih
      rw [← hx] at hassigns
      obtain ⟨_, _, _, -, -, -, -, htakes⟩ :=
        exists_takes_classic (c := c.fresh) hne hident hleft hassigns
      exact matchAt_ne_none (List.mem_of_mem_head? htakes) hm
  | finished c hm hx =>
      rw [matchesAt_finished hm hx, hx]
      exact .finished

end Named

end Scanning

/-- The members that are declared in the text, in the order in which they are first declared. -/
structure ListsDeclared (namespaceName : String) (text : List Char) (names : List String) :
    Prop where
  ne_nil : names ≠ []
  nodup : names.Nodup
  mem_iff : ∀ name, name ∈ names ↔ ∃ before, DeclaredAt namespaceName none text before name.toList
  ordered : names.Pairwise fun first second =>
    ∃ before, DeclaredAt namespaceName none text before first.toList ∧
    ∀ before', DeclaredAt namespaceName none text before' second.toList →
      before.length < before'.length

section Resolved

variable {namespaceName text : String}

theorem DeclaredNames.listsDeclared {names : List (List Char)} (hne : names ≠ [])
    (h : DeclaredNames namespaceName none text.toList names) :
    ListsDeclared namespaceName text.toList ((unique names).map String.ofList) where
  ne_nil := by
    obtain ⟨name, hname⟩ := List.exists_mem_of_ne_nil names hne
    exact List.ne_nil_of_mem (List.mem_map_of_mem (mem_unique.mpr hname))
  nodup := by
    rw [List.Nodup, List.pairwise_map]
    exact (nodup_unique names).imp fun hdiffers hsame => hdiffers (String.ofList_injective hsame)
  mem_iff name := by
    rw [← h.mem_iff, List.mem_map]
    constructor
    · rintro ⟨chars, hchars, rfl⟩
      rw [String.toList_ofList]
      exact mem_unique.mp hchars
    · intro hname
      exact ⟨name.toList, mem_unique.mpr hname, String.ofList_toList⟩
  ordered := by
    rw [List.pairwise_map]
    refine (pairwise_unique names).imp ?_
    rintro first second ⟨front, back, hsplit, hfront, hne⟩
    simpa using h.exists_before hsplit hfront hne

/-- The members of all chains in a text, in order. -/
def chainedMembers (namespaceName : String) (text : List Char) : List (List Char) :=
  ((Signature.classic namespaceName).groupTexts 0 text).flatMap
    ((Signature.target namespaceName).groupTexts 1)

theorem declaredNames_chainedMembers (hne : namespaceName ≠ "")
    (hident : ∀ x ∈ namespaceName.toList, isIdent x = true) (text : List Char) :
    DeclaredNames namespaceName none text (chainedMembers namespaceName text) := by
  have h := declaredNames_matchesAt hne hident (.start text)
  rwa [← allMatches_eq_matchesAt (advances_classic namespaceName), ← List.flatMap_map] at h

/-- Where the signature has a match, a member is declared. -/
theorem chainedMembers_ne_nil (hne : namespaceName ≠ "")
    (hident : ∀ x ∈ namespaceName.toList, isIdent x = true) {text : List Char}
    (h : (Signature.classic namespaceName).groupTexts 0 text ≠ []) :
    chainedMembers namespaceName text ≠ [] := by
  intro hnil
  have hdeclared := declaredNames_chainedMembers hne hident text
  rw [hnil] at hdeclared
  apply h
  rw [groupTexts, allMatches_eq_nil (advances_classic namespaceName) fun a b hab => ?_,
    List.map_nil]
  rw [matchAt_eq_none_iff, List.eq_nil_iff_forall_not_mem]
  intro d hd
  obtain ⟨hleft, name, hassigns⟩ := assigns_of_mem_ways hd
  rw [Cursor.before_fresh, head?_before_beyond] at hleft
  rw [Cursor.after_fresh, Cursor.after_beyond hab] at hassigns
  have hmem : name ∈ [] := hdeclared.mem_iff.mpr ⟨a, b, hab, hleft, hassigns⟩
  cases hmem

theorem extract_classic (baseName : String)
    (hclassic : (classify namespaceName text).dialect = .classic) :
    Export.extract namespaceName baseName (classify namespaceName text) text =
      pure ((chainedMembers namespaceName text.toList).map fun name => .plain
        (String.ofList name)) := by
  rw [Export.extract]
  simp only [hclassic, (found_classic hclassic).2, chainedMembers, List.flatMap_map,
    String.toList_ofList, List.map_flatMap]

/-- The exports of a script that is classified by a chain are the members that it declares, without
any notice: the base name does not stand in for them. -/
theorem resolveExports_declared (hne : namespaceName ≠ "")
    (hident : ∀ x ∈ namespaceName.toList, isIdent x = true) (baseName : String)
    (hclassic : (classify namespaceName text).dialect = .classic) :
    ∃ names, ListsDeclared namespaceName text.toList names ∧
      resolveExports namespaceName baseName none (classify namespaceName text) text =
        pure (names.map Export.plain) := by
  have hnonempty := chainedMembers_ne_nil hne hident (found_classic hclassic).1
  refine ⟨_, (declaredNames_chainedMembers hne hident text.toList).listsDeclared hnonempty, ?_⟩
  have hplain :
      ((chainedMembers namespaceName text.toList).map fun name => Export.plain
        (String.ofList name)).isEmpty =
      false := by
    simpa using hnonempty
  have hinjective (a b : List Char) (hab : Export.plain (String.ofList a) =
      Export.plain (String.ofList b)) : a = b :=
    String.ofList_injective (Export.plain.inj hab)
  simp only [resolveExports, Option.bind_none, extract_classic baseName hclassic, pure_bind, hplain,
    Bool.false_eq_true, if_false, Option.map_none, Option.getD_none, List.append_nil,
    unique_map hinjective,
    List.map_map]
  rfl

/-- A namespace with the name of the keyword, so that a chain goes on after what could be its end, a
member of an object whose name only ends like that, and a member that is declared twice. -/
theorem resolveExports_declared_keyword :
    let text :=
      "function.$a=\n function.b = function.c=function(); _function.d = function.b = function"
    (classify "function" text).dialect = .classic ∧
      (resolveExports "function" "f" none (classify "function" text) text).value =
        [.plain "$a", .plain "b", .plain "c"] ∧
      ∃ names, ListsDeclared "function" text.toList names ∧
        resolveExports "function" "f" none (classify "function" text) text =
          pure (names.map Export.plain) := by
  intro text
  have hclassic : (classify "function" text).dialect = .classic := by decide +kernel
  have hident : ∀ x ∈ "function".toList, isIdent x = true := List.all_eq_true.mp (by decide)
  exact ⟨hclassic, by decide +kernel, resolveExports_declared (by decide) hident "f" hclassic⟩

end Resolved

end ScriptModules
