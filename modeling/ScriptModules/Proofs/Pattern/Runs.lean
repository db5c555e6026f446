import ScriptModules.Proofs.Pattern.Ways
import ScriptModules.Proofs.Text.Pieces
import Mathlib.Data.List.Infix
import Mathlib.Data.List.TakeWhile

/-!
# The ways of words and runs

The patterns of this library are put together from given words, runs of characters of a set,
optional parts and conditions on the neighbouring characters. Each of these leads to cursors that
can be listed outright: a word to one cursor at most, a run to one cursor for each of its
beginnings, the longest first.
-/

namespace ScriptModules.Pattern

theorem CharSet.contains_ident_eq :
    CharSet.ident.contains = Text.isIdent := funext CharSet.contains_ident

theorem CharSet.contains_identOr (extra : List Char) (x : Char) :
    (identOr extra).contains x = (Text.isIdent x || extra.contains x) := by
  have hextra : (extra.map SetItem.char).any (·.holds .exact x) = extra.contains x := by
    rw [List.any_map, List.contains_eq_any_beq]
    rfl
  have hident := contains_ident x
  simp only [contains, ident, identOr, List.any_cons, List.map_nil, List.any_nil, Bool.or_false,
    Bool.bne_false]
    at hident ⊢
  rw [← Bool.or_assoc, hident, hextra]

/-- An edge of a word lies between a word character and another or none. -/
theorem Cursor.holds_boundary (c : Cursor) :
    c.holds (.boundary .unicode) =
      (c.before.head?.any Text.isWord != c.after.head?.any Text.isWord) := rfl

namespace Node

variable {c d : Cursor} {k : Continuation} {s : CharSet}

theorem ways_set (s : CharSet) (c : Cursor) :
    (Node.set s).ways c = if c.after.head?.any s.contains then [c.beyond [c.after.headD '.']]
      else [] := by
  rw [ways]
  cases h : c.after with
  | nil => rfl
  | cons x rest => simp [Cursor.past_eq_beyond h]

theorem mem_ways_set :
    d ∈ (Node.set s).ways c ↔ ∃ x, s.contains x = true ∧ [x] <+: c.after ∧ d = c.beyond [x] := by
  rw [ways_set]
  cases h : c.after with
  | nil => simp
  | cons x rest => by_cases hx : s.contains x = true <;> simp [hx]

theorem mem_ways_seq {m n : Node} : d ∈ (m.seq n).ways c ↔ ∃ e ∈ m.ways c, d ∈ n.ways e :=
  List.mem_flatMap

theorem mem_ways_alt {m n : Node} : d ∈ (m.alt n).ways c ↔ d ∈ m.ways c ∨ d ∈ n.ways c :=
  List.mem_append

theorem mem_ways_anchor {a : Anchor} : d ∈ (Node.anchor a).ways c ↔ c.holds a = true ∧ c = d := by
  rw [ways, @eq_comm _ c d]
  split <;> simp_all

theorem ways_char (x : Char) (c : Cursor) :
    (char x).ways c = if [x].isPrefixOf c.after then [c.beyond [x]] else [] := by
  rw [char, ways_set]
  cases c.after with
  | nil => simp
  | cons y rest =>
      by_cases hxy : x = y
      · simp [hxy, List.isPrefixOf]
      · simp [Ne.symm hxy, hxy, List.isPrefixOf]

/-- A given text leads over itself where it stands. -/
theorem ways_literal (t : List Char) (c : Cursor) :
    (literal t).ways c = if t.isPrefixOf c.after then [c.beyond t] else [] := by
  induction t generalizing c with
  | nil => simp [literal, sequence, ways]
  | cons x t ih =>
      have hcons : (literal (x :: t)).ways c = ((char x).ways c).flatMap (literal t).ways := by
        cases t with
        | nil =>
            simp only [literal, List.map_cons, List.map_nil, sequence, ways]
            induction (char x).ways c <;> simp_all
        | cons y t => rfl
      rw [hcons, ways_char]
      cases h : c.after with
      | nil => simp
      | cons y rest =>
          by_cases hxy : x = y
          · subst hxy
            have hafter : (c.beyond [x]).after = rest := Cursor.after_beyond h
            simp [List.isPrefixOf, ih, hafter]
          · simp [List.isPrefixOf, hxy]

theorem mem_ways_word {w : String} :
    d ∈ (word w).ways c ↔ w.toList <+: c.after ∧ d = c.beyond w.toList := by
  rw [word, ways_literal]
  split <;> simp_all

theorem mem_ways_char {x : Char} : d ∈ (char x).ways c ↔ [x] <+: c.after ∧ d = c.beyond [x] := by
  rw [ways_char]
  split <;> simp_all

/-- Optional turns over the characters of a set lead over every beginning of the run, the longest
first. -/
theorem greedyWays_set {measure : List Char} {last : Option Nat}
    (hmeasure : c.after.length < measure.length) (hlast : last ≠ some c.pos) :
    Matcher.greedyWays (Node.set s).ways measure none last c =
      ((c.after.takeWhile s.contains).inits.reverse).map c.beyond := by
  induction h : c.after generalizing c measure last with
  | nil =>
      cases measure with
      | nil => simp at hmeasure
      | cons m measure => simp [Matcher.greedyWays, Matcher.exhausted, hlast, ways_set, h]
  | cons x rest ih =>
      cases measure with
      | nil => simp at hmeasure
      | cons m measure =>
          have hexhausted : Matcher.exhausted none last c = false := by
            simp [Matcher.exhausted, hlast]
          have hafter : (c.beyond [x]).after = rest := Cursor.after_beyond h
          rw [Matcher.greedyWays, if_neg (by simp [hexhausted]), ways_set, h]
          by_cases hx : s.contains x = true
          · have hrest := @ih (c.beyond [x]) measure (some c.pos)
              (by rw [hafter]; simpa [h] using hmeasure) (by simp [Cursor.beyond]) hafter
            simp only [List.head?_cons, Option.any_some, hx, if_true, List.headD_cons,
              List.flatMap_cons, List.flatMap_nil, List.append_nil, Option.map_none, hrest,
              List.takeWhile_cons, List.inits_cons, List.reverse_cons, List.map_append,
              List.map_reverse, List.map_map]
            simp [Function.comp_def]
          · simp [hx]

theorem ways_many_set (s : CharSet) (c : Cursor) :
    (many (.set s)).ways c = ((c.after.takeWhile s.contains).inits.reverse).map c.beyond := by
  rw [many, ways, Matcher.loopWays]
  simp only [Matcher.timesWays, List.flatMap_cons, List.flatMap_nil, List.append_nil,
    Option.map_none]
  exact greedyWays_set (by simp) (by simp)

theorem prefix_takeWhile_iff {p : Char → Bool} {t l : List Char} :
    t <+: l.takeWhile p ↔ t <+: l ∧ ∀ x ∈ t, p x = true := by
  constructor
  · intro h
    exact ⟨h.trans (List.takeWhile_prefix p), fun x hx => List.mem_takeWhile_imp (h.subset hx)⟩
  · rintro ⟨⟨r, rfl⟩, hall⟩
    rw [List.takeWhile_append_of_pos hall]
    exact List.prefix_append t _

theorem mem_ways_many_set :
    d ∈ (many (.set s)).ways c ↔ ∃ t, t <+: c.after ∧ (∀ x ∈ t, s.contains x = true) ∧
      d = c.beyond t := by
  rw [ways_many_set]
  simp only [List.mem_map, List.mem_reverse, List.mem_inits, prefix_takeWhile_iff]
  constructor
  · rintro ⟨t, ⟨ht, hall⟩, rfl⟩
    exact ⟨t, ht, hall, rfl⟩
  · rintro ⟨t, ht, hall, rfl⟩
    exact ⟨t, ⟨ht, hall⟩, rfl⟩

/-- A run of at least one character leads over every beginning but the empty one. -/
theorem ways_oneOrMore_set (s : CharSet) (c : Cursor) :
    (oneOrMore (.set s)).ways c = ((c.after.takeWhile s.contains).inits.tail.reverse).map
      c.beyond := by
  have hturns : (oneOrMore (.set s)).ways c =
      ((Node.set s).ways c).flatMap (many (.set s)).ways := by
    have hmany : (many (.set s)).ways = fun c' =>
        Matcher.greedyWays (Node.set s).ways ('.' :: c'.after) none none c' := by
      funext c'
      simp [many, ways, Matcher.loopWays, Matcher.timesWays]
    have hone : Matcher.timesWays (Node.set s).ways 1 c = (Node.set s).ways c :=
      List.flatMap_singleton' _
    rw [hmany, ← hone]
    rfl
  rw [hturns, ways_set]
  cases h : c.after with
  | nil => simp
  | cons x rest =>
      by_cases hx : s.contains x = true
      · have hafter : (c.beyond [x]).after = rest := Cursor.after_beyond h
        simp [hx, ways_many_set, hafter, Function.comp_def]
      · simp [hx]

theorem mem_ways_oneOrMore_set :
    d ∈ (oneOrMore (.set s)).ways c ↔
      ∃ t, t ≠ [] ∧ t <+: c.after ∧ (∀ x ∈ t, s.contains x = true) ∧ d = c.beyond t := by
  rw [ways_oneOrMore_set]
  simp only [List.mem_map, List.mem_reverse]
  have htail : ∀ t l : List Char, t ∈ l.inits.tail ↔ t ≠ [] ∧ t <+: l := by
    intro t l
    cases l with
    | nil => simp
    | cons x l => cases t <;> simp [List.cons_prefix_cons, and_comm, eq_comm]
  constructor
  · rintro ⟨t, ht, rfl⟩
    obtain ⟨hne, ht⟩ := (htail t _).mp ht
    obtain ⟨ht, hall⟩ := prefix_takeWhile_iff.mp ht
    exact ⟨t, hne, ht, hall, rfl⟩
  · rintro ⟨t, hne, ht, hall, rfl⟩
    exact ⟨t, (htail t _).mpr ⟨hne, prefix_takeWhile_iff.mpr ⟨ht, hall⟩⟩, rfl⟩

/-- An optional part is tried once and then left out. -/
theorem ways_optional (n : Node) (c : Cursor) : (optional n).ways c = n.ways c ++ [c] := by
  have hnone : ∀ (measure : List Char) (last : Option Nat) (e : Cursor),
      Matcher.greedyWays n.ways measure (some 0) last e = [e] := by
    intro measure last e
    cases measure <;> simp [Matcher.greedyWays, Matcher.exhausted]
  simp [optional, ways, Matcher.loopWays, Matcher.timesWays, Matcher.greedyWays, Matcher.exhausted,
    funext (hnone _ _)]

theorem mem_ways_optional {n : Node} : d ∈ (optional n).ways c ↔ d ∈ n.ways c ∨ c = d := by
  simp [ways_optional, eq_comm]

/-- A look for a character right before, which must not be there, leads nowhere or stays. -/
theorem ways_notBehind (s : CharSet) (c : Cursor) :
    (Node.look (.behind 1) true (.set s)).ways c = if c.before.head?.any s.contains then []
      else [c] := by
  rw [ways]
  cases h : c.before with
  | nil => simp [Cursor.origin, Cursor.back, h]
  | cons x rest =>
      by_cases hx : s.contains x = true <;> simp [Cursor.origin, Cursor.back, h, ways_set, hx]

theorem mem_ways_notBehind :
    d ∈ (Node.look (.behind 1) true (.set s)).ways c ↔
      c.before.head?.any s.contains = false ∧ c = d := by
  rw [ways_notBehind, @eq_comm _ c d]
  split <;> simp_all

/-- The preferred way of the pattern leads from one cursor to the other. -/
def Takes (n : Node) (c d : Cursor) : Prop := (n.ways c).head? = some d

section Preferred

variable {e : Cursor} {m n : Node} {t r : List Char}

/-- A sequence prefers what its parts prefer, as long as nothing has to be taken back. -/
theorem Takes.seq (h : m.Takes c e) (h' : n.Takes e d) : (m.seq n).Takes c d := by
  obtain ⟨ms, hms⟩ := List.head?_eq_some_iff.mp h
  obtain ⟨ns, hns⟩ := List.head?_eq_some_iff.mp h'
  simp [Takes, ways, hms, hns]

/-- What a sequence takes, its second part takes after one of the ways of the first. -/
theorem Takes.exists_of_seq (h : (m.seq n).Takes c d) : ∃ e ∈ m.ways c, n.Takes e d := by
  rw [Takes, ways, List.head?_flatMap] at h
  exact List.exists_of_findSome?_eq_some h

theorem Takes.alt_left (h : m.Takes c d) : (m.alt n).Takes c d := by
  obtain ⟨ms, hms⟩ := List.head?_eq_some_iff.mp h
  simp [Takes, ways, hms]

theorem Takes.optional (h : n.Takes c d) : (optional n).Takes c d := by
  obtain ⟨ns, hns⟩ := List.head?_eq_some_iff.mp h
  simp [Takes, ways_optional, hns]

theorem takes_optional_of_nil (h : n.ways c = []) : (Node.optional n).Takes c c := by
  simp [Takes, ways_optional, h]

theorem Takes.group (h : n.Takes c d) (hlead : c.Leads d t) (i : Nat) :
    (Node.group i n).Takes c (d.record i t) := by
  obtain ⟨ns, hns⟩ := List.head?_eq_some_iff.mp h
  simp [Takes, ways, hns, hlead.capture]

theorem takes_word {w : String} (h : c.after = w.toList ++ r) :
    (word w).Takes c (c.beyond w.toList) := by
  rw [Takes, word, ways_literal, if_pos]
  · rfl
  · simp [h]

theorem takes_char {x : Char} (h : c.after = x :: r) : (char x).Takes c (c.beyond [x]) := by
  rw [Takes, ways_char, if_pos]
  · rfl
  · simp [h]

theorem takes_set {x : Char} (h : c.after = x :: r) (hx : s.contains x = true) :
    (Node.set s).Takes c (c.beyond [x]) := by
  simp [Takes, ways_set, h, hx]

theorem getLast?_inits (t : List Char) : t.inits.getLast? = some t := by
  induction t with
  | nil => rfl
  | cons x t ih => simp [List.getLast?_cons, ih]

/-- A run is taken as a whole. -/
theorem takes_many_set (hc : c.after = t ++ r) (hall : ∀ x ∈ t, s.contains x = true)
    (hstop : ∀ x ∈ r.head?, s.contains x = false) : (many (.set s)).Takes c (c.beyond t) := by
  rw [Takes, ways_many_set, hc, Text.takeWhile_append_of_head hall hstop, List.head?_map,
    List.head?_reverse, getLast?_inits]
  rfl

theorem takes_oneOrMore_set (hc : c.after = t ++ r) (hne : t ≠ [])
    (hall : ∀ x ∈ t, s.contains x = true) (hstop : ∀ x ∈ r.head?, s.contains x = false) :
    (oneOrMore (.set s)).Takes c (c.beyond t) := by
  obtain ⟨x, t, rfl⟩ := List.exists_cons_of_ne_nil hne
  rw [Takes, ways_oneOrMore_set, hc, Text.takeWhile_append_of_head hall hstop]
  simp [getLast?_inits]

/-- A run of at least one character is taken up to a character outside of the set. -/
theorem head?_of_takes_oneOrMore_set (h : (oneOrMore (.set s)).Takes c d) :
    d.after.head?.any s.contains = false := by
  have hsplit : c.after = c.after.takeWhile s.contains ++ c.after.dropWhile s.contains :=
    List.takeWhile_append_dropWhile.symm
  have hne : c.after.takeWhile s.contains ≠ [] := by
    intro hnil
    simp [Takes, ways_oneOrMore_set, hnil] at h
  have hstop : ∀ x ∈ (c.after.dropWhile s.contains).head?, s.contains x = false := by
    intro x hx
    simpa [Option.mem_def.mp hx] using List.head?_dropWhile_not s.contains c.after
  have hall : ∀ x ∈ c.after.takeWhile s.contains, s.contains x = true :=
    fun x => List.mem_takeWhile_imp
  obtain rfl := Option.some.inj (h.symm.trans (takes_oneOrMore_set hsplit hne hall hstop))
  rw [Cursor.after_beyond hsplit]
  cases hx : (c.after.dropWhile s.contains).head? with
  | none => rfl
  | some x => exact hstop x hx

theorem takes_notBehind (h : c.before.head?.any s.contains = false) :
    (Node.look (.behind 1) true (.set s)).Takes c c := by
  simp [Takes, ways_notBehind, h]

theorem takes_anchor {a : Anchor} (h : c.holds a = true) : (Node.anchor a).Takes c c := by
  simp [Takes, ways, h]

/-- A reference takes the text of its group once more. -/
theorem takes_backref {i : Nat} (hgroup : c.group? i = some t) (hc : c.after = t ++ r) :
    (Node.backref i .exact).Takes c (c.beyond t) := by
  simp [Takes, ways, hgroup, Cursor.skip_exact, hc]

end Preferred

end Node

end ScriptModules.Pattern
