import ScriptModules.Proofs.Pattern.Scan

/-!
# What groups capture

A pattern without groups leaves what was captured alone, and a group around a run of characters of a
set captures such a run. From these two facts the captures of a whole match are read off its
pattern, part by part.
-/

namespace ScriptModules.Pattern

namespace Cursor

variable {c d : Cursor}

theorem groups_of_back {n : Nat} (h : c.back n = some d) : d.groups = c.groups := by
  induction n generalizing c with
  | zero => rw [Option.some.inj h]
  | succ n ih =>
      rw [back] at h
      split at h
      · simp at h
      · exact (ih h).trans rfl

theorem groups_of_origin {side : Side} (h : c.origin side = some d) : d.groups = c.groups := by
  cases side with
  | ahead => rw [Option.some.inj h]
  | behind width => exact groups_of_back h

theorem groups_of_skip {rule : CaseRule} {s : List Char} (h : c.skip rule s = some d) :
    d.groups = c.groups := by
  induction s generalizing c with
  | nil => rw [Option.some.inj h]
  | cons x s ih =>
      rw [skip] at h
      split at h
      · simp at h
      · split at h
        · exact (ih h).trans rfl
        · simp at h

end Cursor

namespace Node

variable {n : Node} {c d : Cursor} {s : CharSet} {i : Nat}

/-- The pattern has no group. -/
def captureFree : Node → Bool
  | .empty | .set _ | .backref _ _ | .anchor _ => true
  | .seq first second | .alt first second | .branch _ first second =>
      first.captureFree && second.captureFree
  | .group _ _ => false
  | .look _ _ body | .loop _ _ _ body | .atomic body => body.captureFree

theorem captureFree_word (w : String) : (word w).captureFree = true := by
  have hliteral : ∀ t : List Char, (literal t).captureFree = true := by
    intro t
    induction t with
    | nil => rfl
    | cons x t ih =>
        cases t with
        | nil => rfl
        | cons y t => simpa [literal, sequence, captureFree, char] using ih
  exact hliteral w.toList

/-- A pattern without groups leaves the captures alone. -/
theorem groups_of_captureFree (hn : n.captureFree = true) (h : d ∈ n.ways c) :
    d.groups = c.groups := by
  induction n generalizing c d with
  | empty => rw [List.mem_singleton.mp h]
  | set s =>
      obtain ⟨x, -, -, rfl⟩ := mem_ways_set.mp h
      rfl
  | seq first second ihf ihs =>
      obtain ⟨hfirst, hsecond⟩ := Bool.and_eq_true_iff.mp hn
      obtain ⟨e, he, hd⟩ := mem_ways_seq.mp h
      rw [ihs hsecond hd, ihf hfirst he]
  | alt first second ihf ihs =>
      obtain ⟨hfirst, hsecond⟩ := Bool.and_eq_true_iff.mp hn
      rcases mem_ways_alt.mp h with h | h
      · exact ihf hfirst h
      · exact ihs hsecond h
  | group index body => simp [captureFree] at hn
  | backref index rule =>
      obtain ⟨t, -, ht⟩ := Option.bind_eq_some_iff.mp (Option.mem_toList.mp h)
      exact Cursor.groups_of_skip ht
  | anchor a =>
      obtain ⟨-, rfl⟩ := mem_ways_anchor.mp h
      rfl
  | look side negated body ih =>
      rcases eq_of_mem_ways_look h with rfl | ⟨o, e, ho, he, rfl⟩
      · rfl
      · exact (ih hn he).trans (Cursor.groups_of_origin ho)
  | loop greed least most body ih =>
      exact Matcher.loopWays_closed (r := fun c d => d.groups = c.groups) (fun _ => rfl)
        (fun h h' => h'.trans h) (run_eq_findSome? body) (ih hn) h
  | atomic body ih => exact ih hn (List.mem_of_mem_head? (Option.mem_toList.mp h))
  | branch index present absent ihp iha =>
      obtain ⟨hpresent, habsent⟩ := Bool.and_eq_true_iff.mp hn
      rw [ways] at h
      split at h
      · exact ihp hpresent h
      · exact iha habsent h

/-- In front of a pattern, a part without groups adds no capture. -/
theorem exists_of_mem_seq {first second : Node} (hn : first.captureFree = true)
    (h : d ∈ (first.seq second).ways c) : ∃ e, e.groups = c.groups ∧ d ∈ second.ways e := by
  obtain ⟨e, he, hd⟩ := mem_ways_seq.mp h
  exact ⟨e, groups_of_captureFree hn he, hd⟩

theorem mem_ways_group_set :
    d ∈ (Node.group i (.set s)).ways c ↔
      ∃ x, s.contains x = true ∧ [x] <+: c.after ∧ d = (c.beyond [x]).record i [x] := by
  rw [ways, List.mem_map]
  simp only [mem_ways_set]
  constructor
  · rintro ⟨e, ⟨x, hx, hc, rfl⟩, rfl⟩
    exact ⟨x, hx, hc, (Cursor.leads_beyond hc).capture i⟩
  · rintro ⟨x, hx, hc, rfl⟩
    exact ⟨_, ⟨x, hx, hc, rfl⟩, (Cursor.leads_beyond hc).capture i⟩

theorem mem_ways_group_many_set :
    d ∈ (Node.group i (many (.set s))).ways c ↔
      ∃ t, t <+: c.after ∧ (∀ x ∈ t, s.contains x = true) ∧ d = (c.beyond t).record i t := by
  rw [ways, List.mem_map]
  simp only [mem_ways_many_set]
  constructor
  · rintro ⟨e, ⟨t, hc, hall, rfl⟩, rfl⟩
    exact ⟨t, hc, hall, (Cursor.leads_beyond hc).capture i⟩
  · rintro ⟨t, hc, hall, rfl⟩
    exact ⟨_, ⟨t, hc, hall, rfl⟩, (Cursor.leads_beyond hc).capture i⟩

theorem mem_ways_group_oneOrMore_set :
    d ∈ (Node.group i (oneOrMore (.set s))).ways c ↔
      ∃ t, t ≠ [] ∧ t <+: c.after ∧ (∀ x ∈ t, s.contains x = true) ∧
        d = (c.beyond t).record i t := by
  rw [ways, List.mem_map]
  simp only [mem_ways_oneOrMore_set]
  constructor
  · rintro ⟨e, ⟨t, hne, hc, hall, rfl⟩, rfl⟩
    exact ⟨t, hne, hc, hall, (Cursor.leads_beyond hc).capture i⟩
  · rintro ⟨t, hne, hc, hall, rfl⟩
    exact ⟨_, ⟨t, hne, hc, hall, rfl⟩, (Cursor.leads_beyond hc).capture i⟩

theorem mem_ways_backref :
    d ∈ (Node.backref i .exact).ways c ↔ ∃ t, c.group? i = some t ∧ t <+: c.after ∧
      d = c.beyond t := by
  rw [ways, Option.mem_toList, Option.bind_eq_some_iff]
  simp only [Cursor.skip_exact, Option.ite_none_right_eq_some, List.isPrefixOf_iff_prefix,
    Option.some.injEq, @eq_comm _ d]

/-! A way of a part says which text was passed over and what was captured. -/

section Passing

variable {set : CharSet}

theorem passes_word {w : String} (h : d ∈ (word w).ways c) :
    c.after = w.toList ++ d.after ∧ d.groups = c.groups := by
  obtain ⟨hstart, rfl⟩ := mem_ways_word.mp h
  exact ⟨(Cursor.leads_beyond hstart).after, rfl⟩

theorem passes_char {x : Char} (h : d ∈ (char x).ways c) :
    c.after = x :: d.after ∧ d.groups = c.groups := by
  obtain ⟨hstart, rfl⟩ := mem_ways_char.mp h
  exact ⟨(Cursor.leads_beyond hstart).after, rfl⟩

theorem passes_set (h : d ∈ (Node.set set).ways c) :
    ∃ x, set.contains x = true ∧ c.after = x :: d.after := by
  obtain ⟨x, hx, hstart, rfl⟩ := mem_ways_set.mp h
  exact ⟨x, hx, (Cursor.leads_beyond hstart).after⟩

theorem passes_blanks (h : d ∈ blanks.ways c) :
    ∃ blank, (∀ x ∈ blank, Text.isBlank x = true) ∧ c.after = blank ++ d.after ∧
      d.groups = c.groups := by
  obtain ⟨blank, hstart, hall, rfl⟩ := mem_ways_many_set.mp h
  exact ⟨blank, by simpa using hall, (Cursor.leads_beyond hstart).after, rfl⟩

theorem passes_oneOrMore (h : d ∈ (oneOrMore (.set set)).ways c) :
    ∃ t, t ≠ [] ∧ (∀ x ∈ t, set.contains x = true) ∧ c.after = t ++ d.after := by
  obtain ⟨t, hne, hstart, hall, rfl⟩ := mem_ways_oneOrMore_set.mp h
  exact ⟨t, hne, hall, (Cursor.leads_beyond hstart).after⟩

theorem passes_group_set (h : d ∈ (Node.group i (.set set)).ways c) :
    ∃ x, set.contains x = true ∧ c.after = x :: d.after ∧ d.groups = (i, [x]) :: c.groups := by
  obtain ⟨x, hx, hstart, rfl⟩ := mem_ways_group_set.mp h
  exact ⟨x, hx, (Cursor.leads_beyond hstart).after, rfl⟩

theorem passes_group_many (h : d ∈ (Node.group i (many (.set set))).ways c) :
    ∃ t, (∀ x ∈ t, set.contains x = true) ∧ c.after = t ++ d.after ∧
      d.groups = (i, t) :: c.groups := by
  obtain ⟨t, hstart, hall, rfl⟩ := mem_ways_group_many_set.mp h
  exact ⟨t, hall, (Cursor.leads_beyond hstart).after, rfl⟩

theorem passes_group_oneOrMore (h : d ∈ (Node.group i (oneOrMore (.set set))).ways c) :
    ∃ t, t ≠ [] ∧ (∀ x ∈ t, set.contains x = true) ∧ c.after = t ++ d.after ∧
      d.groups = (i, t) :: c.groups := by
  obtain ⟨t, hne, hstart, hall, rfl⟩ := mem_ways_group_oneOrMore_set.mp h
  exact ⟨t, hne, hall, (Cursor.leads_beyond hstart).after, rfl⟩

/-- A reference passes over the text of its group. -/
theorem passes_backref (h : d ∈ (Node.backref i .exact).ways c) :
    ∃ t, c.group? i = some t ∧ c.after = t ++ d.after ∧ d.groups = c.groups := by
  obtain ⟨t, ht, hstart, rfl⟩ := mem_ways_backref.mp h
  exact ⟨t, ht, (Cursor.leads_beyond hstart).after, rfl⟩

end Passing

end Node

/-- The match goes from a cursor without captures to one of the ways of the pattern. -/
structure Match.Follows (m : Match) (n : Node) : Prop where
  fresh : m.first.groups = []
  way : m.last ∈ n.ways m.first

namespace Match

variable {m : Match} {captures : List (Nat × List Char)}

theorem group?_eq_lookup (h : m.last.groups = captures) (i : Nat) :
    m.group? (i + 1) = captures.lookup (i + 1) := by
  subst h
  rfl

theorem group_eq_lookup (h : m.last.groups = captures) (i : Nat) :
    m.group (i + 1) = (captures.lookup (i + 1)).getD [] := by
  rw [group, group?_eq_lookup h]

end Match

namespace Node

variable {n : Node} {c : Cursor} {m : Match} {text : List Char}

theorem follows_of_matchAt {nonEmpty : Bool} (h : n.matchAt nonEmpty c = some m) : m.Follows n := by
  obtain ⟨hfirst, hlast⟩ := matchAt_sound h
  exact ⟨by rw [hfirst]; rfl, hfirst ▸ hlast⟩

theorem follows_of_search (h : n.search text = some m) : m.Follows n := by
  suffices hfrom : ∀ rest pos before, n.searchFrom pos before rest = some m →
      m.Follows n from hfrom _ _ _ h
  intro rest
  induction rest with
  | nil => exact fun pos before h => follows_of_matchAt h
  | cons x rest ih =>
      intro pos before h
      rw [searchFrom] at h
      split at h
      · rename_i hm
        exact Option.some.inj h ▸ follows_of_matchAt hm
      · exact ih _ _ h

theorem follows_of_mem_allMatches (h : m ∈ n.allMatches text) : m.Follows n := by
  suffices hfrom : ∀ steps room nonEmpty c, Piece.found m ∈ n.piecesFrom steps room nonEmpty c →
      m.Follows n by
    obtain ⟨piece, hpiece, hm⟩ := List.mem_filterMap.mp h
    cases piece with
    | skipped x => simp [Piece.match?] at hm
    | found m' => exact hfrom _ _ _ _ (Option.some.inj hm ▸ hpiece)
  intro steps
  induction steps with
  | zero => simp [piecesFrom]
  | succ steps ih =>
      intro room nonEmpty c h
      rw [piecesFrom] at h
      split at h
      · rename_i m' hm
        split at hm
        · simp at hm
        · rcases List.mem_cons.mp h with h | h
          · exact Piece.found.inj h ▸ follows_of_matchAt hm
          · exact ih _ _ _ h
      · split at h
        · simp at h
        · exact ih _ _ _ (by simpa using h)

theorem exists_match_of_mem_groupTexts {i : Nat} {t : List Char} (h : t ∈ n.groupTexts i text) :
    ∃ m : Match, m.Follows n ∧ m.group i = t := by
  obtain ⟨m, hm, ht⟩ := List.mem_map.mp h
  exact ⟨m, follows_of_mem_allMatches hm, ht⟩

end Node

end ScriptModules.Pattern
