import ScriptModules.Export.Resolve
import ScriptModules.Proofs.Pattern.Groups
import ScriptModules.Proofs.Text.Pieces
import ScriptModules.Proofs.Work

/-!
# Writable exports

An export is writable if a statement can state it so that it is read back: its names are
identifiers, or it passes on a list item from a quoted source. Whatever the dialect of a script,
only writable exports are read off it, as the patterns capture nothing else.
-/

namespace ScriptModules

open Pattern Pattern.Node Text

/-- A text that can stand between quotes. -/
def IsSource (s : List Char) : Prop := s ≠ [] ∧ ∀ x ∈ s, Statement.unquoted.contains x = true

/-- A text that can be one item of a list in braces, with its blanks squeezed. -/
structure IsListItem (s : List Char) : Prop where
  ne_nil : s ≠ []
  squeezed : squeeze s = s
  brace : '\x7d' ∉ s
  comma : ',' ∉ s

/-- The exports that an export statement can state. -/
inductive Export.Writable : Export → Prop
  | plain {name : String} (h : IsIdentifier name.toList) : Writable (.plain name)
  | renamed {name new : String} (h : IsIdentifier name.toList) (hnew : IsIdentifier new.toList) :
      Writable (.entry name .asName new)
  | passed {item source : String} (h : IsListItem item.toList) (hsource : IsSource source.toList) :
      Writable (.entry item .fromFile source)

section Captures

variable {c d : Cursor} {m : Match}

theorem groups_identifier {i : Nat} (h : d ∈ (Node.group i identifier).ways c) :
    ∃ t, IsIdentifier t ∧ d.groups = (i, t) :: c.groups := by
  obtain ⟨t, hne, -, hall, rfl⟩ := mem_ways_group_oneOrMore_set.mp h
  exact ⟨t, ⟨hne, by simpa using hall⟩, rfl⟩

theorem groups_braceList (h : d ∈ Statement.braceList.ways c) :
    ∃ inside, '\x7d' ∉ inside ∧ d.groups = (1, inside) :: c.groups := by
  obtain ⟨e, he, h⟩ := exists_of_mem_seq rfl h
  obtain ⟨e', he', h⟩ := mem_ways_seq.mp h
  obtain ⟨inside, -, hall, rfl⟩ := mem_ways_group_many_set.mp he'
  refine ⟨inside, fun hbrace => ?_, ?_⟩
  · simpa using hall _ hbrace
  · rw [groups_of_captureFree rfl h, Cursor.groups_record, Cursor.groups_beyond, he]

/-- A match of an export statement captures a declared name, a list, or a list with its source. -/
theorem groups_exportStatement (h : m.Follows Statement.exportStatement) :
    (∃ name, IsIdentifier name ∧ m.last.groups = [(4, name)]) ∨
      (∃ inside, '\x7d' ∉ inside ∧ m.last.groups = [(1, inside)]) ∨
      ∃ inside quote source, '\x7d' ∉ inside ∧ IsSource source ∧
        m.last.groups = [(3, source), (2, quote), (1, inside)] := by
  obtain ⟨hfresh, h⟩ := h
  obtain ⟨e, he, h⟩ := exists_of_mem_seq rfl h
  obtain ⟨e', he', h⟩ := exists_of_mem_seq (captureFree_word _) h
  obtain ⟨e'', he'', h⟩ := exists_of_mem_seq rfl h
  have hstart : e''.groups = [] := by rw [he'', he', he, hfresh]
  rcases mem_ways_alt.mp h with h | h
  · obtain ⟨f, hf, h⟩ := mem_ways_seq.mp h
    obtain ⟨inside, hinside, hgroups⟩ := groups_braceList hf
    obtain ⟨f', hf', h⟩ := exists_of_mem_seq rfl h
    rw [hgroups, hstart] at hf'
    rcases mem_ways_optional.mp h with h | hlast
    · obtain ⟨g, hg, h⟩ := exists_of_mem_seq (captureFree_word _) h
      obtain ⟨g', hg', h⟩ := exists_of_mem_seq rfl h
      obtain ⟨k, hk, h⟩ := mem_ways_seq.mp h
      obtain ⟨quote, -, -, rfl⟩ := mem_ways_group_set.mp hk
      obtain ⟨k, hk, h⟩ := mem_ways_seq.mp h
      obtain ⟨source, hne, -, hall, rfl⟩ := mem_ways_group_oneOrMore_set.mp hk
      refine .inr (.inr ⟨inside, [quote], source, hinside, ⟨hne, hall⟩, ?_⟩)
      rw [groups_of_captureFree rfl h]
      simp [hg', hg, hf']
    · exact .inr (.inl ⟨inside, hinside, hlast ▸ hf'⟩)
  · obtain ⟨f, hf, h⟩ := exists_of_mem_seq rfl h
    obtain ⟨f', hf', h⟩ := exists_of_mem_seq rfl h
    obtain ⟨name, hname, hgroups⟩ := groups_identifier h
    exact .inl ⟨name, hname, by rw [hgroups, hf', hf, hstart]⟩

theorem groups_renamedItem (h : m.Follows Statement.renamedItem) :
    ∃ name new, IsIdentifier name ∧ IsIdentifier new ∧ m.last.groups = [(2, new), (1, name)] := by
  obtain ⟨hfresh, h⟩ := h
  obtain ⟨e, he, h⟩ := exists_of_mem_seq rfl h
  obtain ⟨f, hf, h⟩ := mem_ways_seq.mp h
  obtain ⟨name, hname, hgroups⟩ := groups_identifier hf
  obtain ⟨g, hg, h⟩ := exists_of_mem_seq rfl h
  obtain ⟨g', hg', h⟩ := exists_of_mem_seq (captureFree_word _) h
  obtain ⟨g'', hg'', h⟩ := exists_of_mem_seq rfl h
  obtain ⟨k, hk, h⟩ := mem_ways_seq.mp h
  obtain ⟨new, hnew, hnewGroups⟩ := groups_identifier hk
  refine ⟨name, new, hname, hnew, ?_⟩
  rw [groups_of_captureFree rfl h, hnewGroups, hg'', hg', hg, hgroups, he, hfresh]

theorem groups_property (h : m.Follows Statement.property) :
    ∃ key, IsIdentifier key ∧ (m.last.groups = [(1, key)] ∨
      ∃ value, IsIdentifier value ∧ m.last.groups = [(2, value), (1, key)]) := by
  obtain ⟨hfresh, h⟩ := h
  obtain ⟨e, he, h⟩ := exists_of_mem_seq rfl h
  obtain ⟨f, hf, h⟩ := mem_ways_seq.mp h
  obtain ⟨key, hkey, hgroups⟩ := groups_identifier hf
  obtain ⟨g, hg, h⟩ := mem_ways_seq.mp h
  have hlast : m.last.groups = g.groups := groups_of_captureFree rfl h
  refine ⟨key, hkey, ?_⟩
  rcases mem_ways_optional.mp hg with hg | rfl
  · obtain ⟨k, hk, hg⟩ := exists_of_mem_seq rfl hg
    obtain ⟨k', hk', hg⟩ := exists_of_mem_seq rfl hg
    obtain ⟨k'', hk'', hg⟩ := exists_of_mem_seq rfl hg
    obtain ⟨value, hvalue, hvalueGroups⟩ := groups_identifier hg
    exact .inr ⟨value, hvalue, by rw [hlast, hvalueGroups, hk'', hk', hk, hgroups, he, hfresh]⟩
  · exact .inl (by rw [hlast, hgroups, he, hfresh])

theorem groups_cjs (h : m.Follows Signature.cjs) :
    (∃ inside, m.last.groups = [(1, inside)]) ∨ ∃ name, IsIdentifier name ∧
      m.last.groups = [(2, name)] := by
  obtain ⟨hfresh, h⟩ := h
  obtain ⟨e, he, h⟩ := exists_of_mem_seq (captureFree_word _) h
  obtain ⟨f, hf, h⟩ := exists_of_mem_seq rfl h
  obtain ⟨g, hg, h⟩ := exists_of_mem_seq rfl h
  obtain ⟨k, hk, h⟩ := exists_of_mem_seq rfl h
  have hstart : k.groups = [] := by rw [hk, hg, hf, he, hfresh]
  rcases mem_ways_alt.mp h with h | h
  · obtain ⟨inside, -, hgroups⟩ := groups_braceList h
    exact .inl ⟨inside, by rw [hgroups, hstart]⟩
  · obtain ⟨name, hname, hgroups⟩ := groups_identifier h
    exact .inr ⟨name, hname, by rw [hgroups, hstart]⟩

theorem captureFree_member (namespaceName : String) :
    (Signature.member namespaceName).captureFree = true := by
  simp [Signature.member, Node.sequence, captureFree, captureFree_word, notAfterIdent, char]

/-- A match whose only capture is an identifier gives it as group 1. -/
theorem isIdentifier_group (h : ∃ name, IsIdentifier name ∧ m.last.groups = [(1, name)]) :
    IsIdentifier (m.group 1) := by
  obtain ⟨name, hname, hgroups⟩ := h
  rw [Match.group_eq_lookup hgroups 0]
  exact hname

variable {namespaceName : String}

/-- After the namespace stands an identifier, whatever comes after it. -/
theorem isIdentifier_afterMember {rest : Node} (hrest : rest.captureFree = true)
    (h : m.Follows ((Signature.member namespaceName).seq ((Node.group 1 identifier).seq rest))) :
    IsIdentifier (m.group 1) := by
  obtain ⟨hfresh, h⟩ := h
  obtain ⟨e, he, h⟩ := exists_of_mem_seq (captureFree_member namespaceName) h
  obtain ⟨f, hf, h⟩ := mem_ways_seq.mp h
  obtain ⟨name, hname, hgroups⟩ := groups_identifier hf
  exact isIdentifier_group ⟨name, hname, by rw [groups_of_captureFree hrest h, hgroups, he, hfresh]⟩

theorem isIdentifier_prototype (h : m.Follows (Signature.prototype namespaceName)) :
    IsIdentifier (m.group 1) := by
  obtain ⟨hfresh, h⟩ := h
  obtain ⟨e, he, h⟩ := exists_of_mem_seq (captureFree_word _) h
  obtain ⟨f, hf, h⟩ := exists_of_mem_seq rfl h
  obtain ⟨g, hg, h⟩ := exists_of_mem_seq rfl h
  obtain ⟨k, hk, h⟩ := exists_of_mem_seq rfl h
  have hmember : (optional (Signature.member namespaceName)).captureFree = true :=
    captureFree_member namespaceName
  obtain ⟨l, hl, h⟩ := exists_of_mem_seq hmember h
  obtain ⟨name, hname, hgroups⟩ := groups_identifier h
  exact isIdentifier_group ⟨name, hname, by rw [hgroups, hl, hk, hg, hf, he, hfresh]⟩

end Captures

namespace Export

variable {baseName : String} {e : Export}

/-- A squeezed item that is one identifier is nothing more. -/
theorem isIdentifier_of_loneIdentifier {s : List Char}
    (h : (Statement.loneIdentifier.matchStart (squeeze s)).isSome = true) :
    IsIdentifier (squeeze s) := by
  obtain ⟨m, hm⟩ := Option.isSome_iff_exists.mp h
  obtain ⟨c, hc, h⟩ := mem_ways_seq.mp (matchAt_sound hm).2
  obtain ⟨-, rfl⟩ := mem_ways_anchor.mp hc
  obtain ⟨d, hd, h⟩ := mem_ways_seq.mp h
  obtain ⟨t, hne, ⟨r, hr⟩, hall, rfl⟩ := mem_ways_oneOrMore_set.mp hd
  obtain ⟨hend, -⟩ := mem_ways_anchor.mp h
  have hafter : ((Cursor.start (squeeze s)).fresh.beyond t).after = r := Cursor.after_beyond hr.symm
  have htext : squeeze s = t ++ r := hr.symm
  have hident : IsIdentifier t := ⟨hne, by simpa using hall⟩
  rw [Cursor.holds, hafter, Bool.or_eq_true, List.isEmpty_iff, beq_iff_eq] at hend
  rcases hend with rfl | rfl
  · rw [htext, List.append_nil]
    exact hident
  · have hfeed : '\n' ∈ squeeze s := by simp [htext]
    rcases mem_of_mem_squeeze hfeed with ⟨-, hblank⟩ | hspace
    · simp [isBlank] at hblank
    · simp at hspace

theorem writable_ofListItem {source : Option (List Char)} {item : List Char}
    (hbrace : '\x7d' ∉ item) (hcomma : ',' ∉ item) (hsource : ∀ s ∈ source, IsSource s)
    (h : e ∈ (ofListItem baseName source item).value) : e.Writable := by
  have hmem : ∀ x : Char, x ∉ item → x ≠ ' ' → x ∉ squeeze item := by
    intro x hx hspace hsqueezed
    rcases mem_of_mem_squeeze hsqueezed with ⟨hitem, -⟩ | heq
    · exact hx hitem
    · exact hspace heq
  simp only [ofListItem] at h
  split at h
  · simp at h
  · rename_i hne
    cases source with
    | some s =>
        obtain rfl := List.mem_singleton.mp h
        refine .passed ⟨?_, ?_, ?_, ?_⟩ ?_
        · simpa using hne
        · simpa using squeeze_squeeze item
        · simpa using hmem _ hbrace (by decide)
        · simpa using hmem _ hcomma (by decide)
        · simpa using hsource s rfl
    | none =>
        simp only at h
        split at h
        · rename_i m hm
          obtain ⟨name, new, hname, hnew, hgroups⟩ := groups_renamedItem (follows_of_matchAt hm)
          obtain rfl := List.mem_singleton.mp h
          have hfirst : m.group 1 = name := Match.group_eq_lookup hgroups 0
          have hsecond : m.group 2 = new := Match.group_eq_lookup hgroups 1
          exact .renamed (by simpa [hfirst] using hname) (by simpa [hsecond] using hnew)
        · split at h
          · rename_i hlone
            obtain rfl := List.mem_singleton.mp h
            exact .plain (by simpa using isIdentifier_of_loneIdentifier hlone)
          · simp at h

theorem writable_list {inside : List Char} {source : Option (List Char)} (hbrace : '\x7d' ∉ inside)
    (hsource : ∀ s ∈ source, IsSource s)
    (h : e ∈ (((splitOn ',' inside).mapM (ofListItem baseName source)).value).flatten) :
    e.Writable := by
  obtain ⟨item, hitem, he⟩ := Noted.mem_flatten_mapM.mp h
  refine writable_ofListItem (fun hx => hbrace (mem_of_mem_splitOn hitem hx).1) ?_ hsource he
  exact fun hx => (mem_of_mem_splitOn hitem hx).2 rfl

theorem writable_ofStatement {m : Match} (hm : m.Follows Statement.exportStatement)
    (h : e ∈ (ofStatement baseName m).value) : e.Writable := by
  rw [ofStatement] at h
  rcases groups_exportStatement hm with ⟨name, hname, hgroups⟩ | ⟨inside, hinside, hgroups⟩ |
    ⟨inside, quote, source, hinside, hsource, hgroups⟩
  · have hfour : m.group? 4 = some name := Match.group?_eq_lookup hgroups 3
    rw [hfour] at h
    obtain rfl := List.mem_singleton.mp h
    exact .plain (by simpa using hname)
  · have hfour : m.group? 4 = none := Match.group?_eq_lookup hgroups 3
    have hthree : m.group? 3 = none := Match.group?_eq_lookup hgroups 2
    have hone : m.group 1 = inside := Match.group_eq_lookup hgroups 0
    rw [hfour, hthree, hone] at h
    exact writable_list hinside (by simp) h
  · have hfour : m.group? 4 = none := Match.group?_eq_lookup hgroups 3
    have hthree : m.group? 3 = some source := Match.group?_eq_lookup hgroups 2
    have hone : m.group 1 = inside := Match.group_eq_lookup hgroups 0
    rw [hfour, hthree, hone] at h
    exact writable_list hinside (by simpa using hsource) h

theorem writable_fromStatements {text : List Char} (h : e ∈ (fromStatements baseName text).value) :
    e.Writable := by
  rw [fromStatements, Noted.value_bind, Noted.value_pure] at h
  obtain ⟨m, hm, he⟩ := Noted.mem_flatten_mapM.mp h
  exact writable_ofStatement (follows_of_mem_allMatches hm) he

theorem writable_ofProperty {item : List Char} (h : e ∈ (ofProperty baseName item).value) :
    e.Writable := by
  rw [ofProperty] at h
  split at h
  · simp at h
  · split at h
    · simp at h
    · rename_i m hm
      obtain ⟨key, hkey, hgroups⟩ := groups_property (follows_of_matchAt hm)
      rcases hgroups with hgroups | ⟨value, hvalue, hgroups⟩
      · have hone : m.group 1 = key := Match.group_eq_lookup hgroups 0
        have htwo : m.group? 2 = none := Match.group?_eq_lookup hgroups 1
        simp only [hone, htwo] at h
        obtain rfl := List.mem_singleton.mp h
        exact .plain (by simpa using hkey)
      · have hone : m.group 1 = key := Match.group_eq_lookup hgroups 0
        have htwo : m.group? 2 = some value := Match.group?_eq_lookup hgroups 1
        simp only [hone, htwo] at h
        split at h
        · obtain rfl := List.mem_singleton.mp h
          exact .plain (by simpa using hkey)
        · obtain rfl := List.mem_singleton.mp h
          exact .renamed (by simpa using hvalue) (by simpa using hkey)

theorem writable_ofAssignment {assignment : List Char}
    (h : e ∈ (ofAssignment baseName assignment).value) :
    e.Writable := by
  rw [ofAssignment] at h
  split at h
  · simp at h
  · rename_i m hm
    rcases groups_cjs (follows_of_search hm) with ⟨inside, hgroups⟩ | ⟨name, hname, hgroups⟩
    · have htwo : m.group? 2 = none := Match.group?_eq_lookup hgroups 1
      rw [htwo, Noted.value_bind, Noted.value_pure] at h
      obtain ⟨item, -, he⟩ := Noted.mem_flatten_mapM.mp h
      exact writable_ofProperty he
    · have htwo : m.group? 2 = some name := Match.group?_eq_lookup hgroups 1
      simp only [htwo] at h
      split at h
      · simp at h
      · obtain rfl := List.mem_singleton.mp h
        exact .plain (by simpa using hname)

/-- A script is classified by the signature of its dialect, or it has none. -/
theorem recognize_classify (namespaceName text : String) :
    recognize namespaceName text.toList (classify namespaceName text).dialect =
      some (classify namespaceName text) := by
  have hdialect : ∀ d c, recognize namespaceName text.toList d = some c → c.dialect = d := by
    intro d c h
    cases d <;> simp only [recognize, Classification.ofOccurrence, Classification.ofFound] at h <;>
      grind
  cases h : Dialect.all.findSome? (recognize namespaceName text.toList) with
  | none => simp [classify, h, recognize]
  | some c =>
      obtain ⟨d, -, hd⟩ := List.exists_of_findSome?_eq_some h
      have hc : classify namespaceName text = c := by simp [classify, h]
      rw [hc, hdialect d c hd, hd]

/-- The texts that a classification records were captured by the signature. -/
theorem exists_of_mem_found {n : Node} {i : Nat} {d : Dialect} {c : Classification}
    {text : List Char} {s : String} (h : Classification.ofFound d (n.groupTexts i text) = some c)
    (hs : s ∈ c.found) :
    ∃ m : Match, m.Follows n ∧ m.group i = s.toList := by
  rw [Classification.ofFound] at h
  split at h
  · simp at h
  · obtain rfl := Option.some.inj h
    obtain ⟨t, ht, rfl⟩ := List.mem_map.mp hs
    simpa using exists_match_of_mem_groupTexts ht

/-- Whatever the dialect of a script, its exports are writable. -/
theorem writable_extract {namespaceName text : String} (hbase : IsIdentifier baseName.toList)
    (h : e ∈ (extract namespaceName baseName (classify namespaceName text) text).value) :
    e.Writable := by
  have hrecognized := recognize_classify namespaceName text
  generalize classify namespaceName text = c at h hrecognized
  obtain ⟨dialect, found⟩ := c
  rw [extract] at h
  cases dialect with
  | es6 => exact writable_fromStatements h
  | amd => simp at h
  | cjs =>
      rw [Noted.value_bind, Noted.value_pure] at h
      obtain ⟨s, -, he⟩ := Noted.mem_flatten_mapM.mp h
      exact writable_ofAssignment he
  | classic =>
      obtain ⟨s, -, he⟩ := List.mem_flatMap.mp h
      obtain ⟨name, hname, rfl⟩ := List.mem_map.mp he
      obtain ⟨m, hm, hgroup⟩ := exists_match_of_mem_groupTexts hname
      exact .plain (by simpa [hgroup] using isIdentifier_afterMember rfl hm)
  | prototype =>
      obtain ⟨name, hname, rfl⟩ := List.mem_map.mp h
      obtain ⟨m, hm, hgroup⟩ := exists_of_mem_found hrecognized hname
      exact .plain (hgroup ▸ isIdentifier_prototype hm)
  | library =>
      obtain ⟨name, hname, rfl⟩ := List.mem_map.mp h
      obtain ⟨m, hm, hgroup⟩ := exists_of_mem_found hrecognized hname
      exact .plain (hgroup ▸ isIdentifier_afterMember rfl hm)
  | umd =>
      obtain rfl := List.mem_singleton.mp h
      exact .plain hbase
  | unknown =>
      obtain rfl := List.mem_singleton.mp h
      exact .plain hbase

end Export

/-- Without an edge case, the exports of a script are writable. -/
theorem writable_resolveExports {namespaceName baseName text : String} {e : Export}
    (hbase : IsIdentifier baseName.toList)
    (h : e ∈
      (resolveExports namespaceName baseName none (classify namespaceName text) text).value) :
    e.Writable := by
  simp only [resolveExports, Option.bind_none, Noted.value_bind, Option.map_none, Option.getD_none,
    List.append_nil] at h
  split at h
  · obtain rfl := List.mem_singleton.mp h
    exact .plain hbase
  · exact Export.writable_extract hbase (mem_unique.mp h)

end ScriptModules
