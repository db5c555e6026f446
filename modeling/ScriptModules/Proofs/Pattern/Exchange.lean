import ScriptModules.Proofs.Pattern.Scan

/-!
# Exchanging matches for a fixed text

Many patterns look at no more than the text ahead and the one character before it, and take a
definite piece of text where they match. Where every match is exchanged for the same text, the
outcome can be told from the text alone: it goes over the text from left to right, piece by piece or
character by character. What a later rule does to such an outcome, and what two rules do one after
the other, then follows the same steps.
-/

namespace ScriptModules.Pattern

/-- The character before the place that a text leads to, where `left` is the one before the text. -/
def lastOf (left : Option Char) : List Char → Option Char
  | [] => left
  | x :: s => lastOf (some x) s

/-- What a pattern takes: the text `w`, where `left` is the character before it and `rest` the text
after it. -/
abbrev Spot := Option Char → List Char → List Char → Prop

/-- The pattern takes what the spots say, and captures nothing. -/
def Node.Reads (n : Node) (spot : Spot) : Prop :=
  ∀ c d : Cursor, d ∈ n.ways c ↔ ∃ w rest, spot c.before.head? w rest ∧ c.after = w ++ rest ∧
    d = c.beyond w

/-- The pattern passes over what the spots say, whatever it captures. -/
def Node.PassesOver (n : Node) (spot : Spot) : Prop :=
  ∀ (c : Cursor) (w : List Char),
    (∃ d ∈ n.ways c, c.Leads d w) ↔ ∃ rest, spot c.before.head? w rest ∧ c.after = w ++ rest

/-- No spot is empty, and at most one starts at each place. -/
structure Definite (spot : Spot) : Prop where
  ne_nil : ∀ {left w rest}, spot left w rest → w ≠ []
  unique : ∀ {left w rest w' rest'}, spot left w rest → spot left w' rest' →
    w ++ rest = w' ++ rest' → w = w'

/-- No spot starts at the start of the text. -/
def Bare (spot : Spot) (left : Option Char) (s : List Char) : Prop :=
  ∀ w rest, s = w ++ rest → ¬spot left w rest

/-- No spot starts in the text `s`, where `rest` comes after it. -/
def Free (spot : Spot) : Option Char → List Char → List Char → Prop
  | _, [], _ => True
  | left, x :: s, rest => Bare spot left (x :: (s ++ rest)) ∧ Free spot (some x) s rest

/-- From left to right, each spot of the text is exchanged for `out`. -/
inductive Exchanges (spot : Spot) (out : List Char) : Option Char → List Char → List Char → Prop
  | finished (left : Option Char) : Exchanges spot out left [] []
  | found {left : Option Char} {w rest u : List Char} (h : spot left w rest)
      (hrest : Exchanges spot out (lastOf left w) rest u) :
        Exchanges spot out left (w ++ rest) (out ++ u)
  | copied {left : Option Char} {x : Char} {rest u : List Char} (h : Bare spot left (x :: rest))
      (hrest : Exchanges spot out (some x) rest u) : Exchanges spot out left (x :: rest) (x :: u)

section Places

variable {left : Option Char}

@[simp] theorem lastOf_nil : lastOf left [] = left := rfl

@[simp] theorem lastOf_cons (x : Char) (s : List Char) : lastOf left (x :: s) = lastOf (some x) s :=
  rfl

@[simp] theorem lastOf_append (s t : List Char) :
    lastOf left (s ++ t) = lastOf (lastOf left s) t := by
  induction s generalizing left with
  | nil => rfl
  | cons x s ih => exact ih

theorem any_lastOf {p : Char → Bool} {s : List Char} (hne : s ≠ []) (hs : ∀ x ∈ s, p x = true) :
    (lastOf left s).any p = true := by
  obtain ⟨s, x, rfl⟩ := (List.eq_nil_or_concat' s).resolve_left hne
  simpa using hs x (by simp)

theorem exists_of_lastOf {s : List Char} {x : Char} (h : lastOf none s = some x) :
    ∃ t, s = t ++ [x] := by
  rcases List.eq_nil_or_concat' s with rfl | ⟨t, y, rfl⟩
  · cases h
  · obtain rfl : y = x := by simpa using h
    exact ⟨t, rfl⟩

theorem head?_before_beyond (c : Cursor) (s : List Char) :
    (c.beyond s).before.head? = lastOf c.before.head? s := by
  induction s generalizing c with
  | nil => simp
  | cons x s ih =>
      have hrest := ih (c.beyond [x])
      rw [Cursor.beyond_beyond] at hrest
      exact hrest

end Places

section Outcomes

variable {spot : Spot} {out : List Char} {left : Option Char} {s t w rest v : List Char} {x : Char}

theorem Definite.length_lt (hd : Definite spot) (h : spot left w rest) :
    rest.length < (w ++ rest).length := by
  have hpos := List.length_pos_iff.mpr (hd.ne_nil h)
  rw [List.length_append]
  omega

theorem exists_spot_of_not_bare (h : ¬Bare spot left s) :
    ∃ w rest, s = w ++ rest ∧ spot left w rest := by
  simpa [Bare] using h

theorem free_append (hs : Free spot left s (t ++ rest)) (ht : Free spot (lastOf left s) t rest) :
    Free spot left (s ++ t) rest := by
  induction s generalizing left with
  | nil => exact ht
  | cons x s ih =>
      obtain ⟨hfirst, hs⟩ := hs
      refine ⟨?_, ih hs ht⟩
      change Bare spot left (x :: ((s ++ t) ++ rest))
      rwa [List.append_assoc]

/-- Text in which no spot starts is copied. -/
theorem Exchanges.append_of_free (hs : Free spot left s rest)
    (h : Exchanges spot out (lastOf left s) rest v) :
    Exchanges spot out left (s ++ rest) (s ++ v) := by
  induction s generalizing left with
  | nil => exact h
  | cons x s ih => exact .copied hs.1 (ih hs.2 h)

theorem Exchanges.of_nil (hd : Definite spot) (h : Exchanges spot out left s v) (hs : s = []) :
    v = [] := by
  cases h with
  | finished => rfl
  | found hspot _ => exact absurd (List.append_eq_nil_iff.mp hs).1 (hd.ne_nil hspot)
  | copied => cases hs

/-- A spot with which the text starts is exchanged. -/
theorem Exchanges.of_spot (hd : Definite spot) (h : Exchanges spot out left s v)
    (hs : s = w ++ rest) (hspot : spot left w rest) :
    ∃ u, v = out ++ u ∧ Exchanges spot out (lastOf left w) rest u := by
  cases h with
  | finished => exact absurd (List.append_eq_nil_iff.mp hs.symm).1 (hd.ne_nil hspot)
  | @found _ w' rest' u hspot' hrest =>
      obtain rfl := hd.unique hspot' hspot hs
      obtain rfl := List.append_cancel_left hs
      exact ⟨u, rfl, hrest⟩
  | copied hbare _ => exact absurd hspot (hbare w rest hs)

/-- A character at which no spot starts is copied. -/
theorem Exchanges.of_bare (h : Exchanges spot out left s v) (hs : s = x :: rest)
    (hbare : Bare spot left (x :: rest)) :
    ∃ u, v = x :: u ∧ Exchanges spot out (some x) rest u := by
  cases h with
  | finished => cases hs
  | found hspot _ => exact absurd hspot (hbare _ _ hs.symm)
  | copied _ hrest =>
      obtain ⟨rfl, rfl⟩ := List.cons.inj hs
      exact ⟨_, rfl, hrest⟩

theorem Exchanges.of_free (h : Exchanges spot out left (s ++ rest) v) (hs : Free spot left s rest) :
    ∃ u, v = s ++ u ∧ Exchanges spot out (lastOf left s) rest u := by
  induction s generalizing left v with
  | nil => exact ⟨v, rfl, h⟩
  | cons x s ih =>
      obtain ⟨u, rfl, hrest⟩ := h.of_bare rfl hs.1
      obtain ⟨u', rfl, hlast⟩ := ih hrest hs.2
      exact ⟨u', rfl, hlast⟩

/-- No spot starts a text whose outcome starts in another way than with what spots are exchanged
for. -/
theorem Exchanges.bare_of_not_prefix (hd : Definite spot) (h : Exchanges spot out left s v)
    (hv : ¬out <+: v) :
    Bare spot left s := by
  intro w r hs hspot
  obtain ⟨u, rfl, -⟩ := h.of_spot hd hs hspot
  exact hv (List.prefix_append _ _)

/-- A character with which the outcome starts, where no spot does, is copied from the text. -/
theorem Exchanges.exists_of_cons (h : Exchanges spot out left s (x :: v))
    (hbare : Bare spot left s) :
    ∃ rest, s = x :: rest ∧ Exchanges spot out (some x) rest v := by
  generalize hu : x :: v = u at h
  cases h with
  | finished => cases hu
  | found hspot _ => exact absurd hspot (hbare _ _ rfl)
  | copied _ hrest =>
      obtain ⟨rfl, rfl⟩ := List.cons.inj hu
      exact ⟨_, rfl, hrest⟩

/-- The outcome starts with a character that does not start what spots are exchanged for only if the
text does. -/
theorem Exchanges.head?_of_head? (h : Exchanges spot out left s v) (hout : out ≠ [])
    (hx : out.head? ≠ some x) (hv : v.head? = some x) : s.head? = some x := by
  cases h with
  | finished => exact hv
  | found _ _ =>
      rw [List.head?_append_of_ne_nil _ hout] at hv
      exact absurd hv hx
  | copied _ _ => exact hv

/-- The outcome is determined by the text. -/
theorem Exchanges.unique (hd : Definite spot) (h : Exchanges spot out left s t)
    (h' : Exchanges spot out left s v) :
    t = v := by
  induction h generalizing v with
  | finished => exact (h'.of_nil hd rfl).symm
  | found hspot _ ih =>
      obtain ⟨u, rfl, hrest⟩ := h'.of_spot hd rfl hspot
      rw [ih hrest]
  | copied hbare _ ih =>
      obtain ⟨u, rfl, hrest⟩ := h'.of_bare rfl hbare
      rw [ih hrest]

/-- A text without spots is its own outcome. -/
theorem exchanges_self (hs : Free spot left s []) : Exchanges spot out left s s := by
  have hcopied : Exchanges spot out left (s ++ []) (s ++ []) := .append_of_free hs (.finished _)
  rwa [List.append_nil] at hcopied

end Outcomes

namespace Node

variable {n : Node} {spot : Spot} {out : List Char}

theorem Reads.advances (hn : n.Reads spot) (hd : Definite spot) : n.Advances := by
  intro c d h
  obtain ⟨w, rest, hspot, -, rfl⟩ := (hn c d).mp h
  have hpos := List.length_pos_iff.mpr (hd.ne_nil hspot)
  simp only [Cursor.beyond]
  omega

theorem Reads.passesOver (hn : n.Reads spot) : n.PassesOver spot := by
  intro c w
  constructor
  · rintro ⟨d, hway, hlead⟩
    obtain ⟨w', rest, hspot, hafter, rfl⟩ := (hn c d).mp hway
    have hwhole := hlead.after
    rw [Cursor.after_beyond hafter, hafter] at hwhole
    obtain rfl := List.append_cancel_right hwhole
    exact ⟨rest, hspot, hafter⟩
  · rintro ⟨rest, hspot, hafter⟩
    exact ⟨c.beyond w, (hn _ _).mpr ⟨w, rest, hspot, hafter, rfl⟩,
      Cursor.leads_beyond ⟨rest, hafter.symm⟩⟩

/-- Replacing the matches of a pattern exchanges its spots. -/
theorem PassesOver.exchanges_replacedAt (hn : n.PassesOver spot) (hadvances : n.Advances)
    (c : Cursor) :
    Exchanges spot out c.before.head? c.after (n.replacedAt (fun _ => out) c) := by
  induction c using scan_induction hadvances with
  | found c m hm ih =>
      have hway := (matchAt_sound hm).2
      obtain ⟨w, hlead⟩ := exists_leads_of_mem_ways hway
      obtain ⟨rest, hspot, hafter⟩ := (hn _ w).mp ⟨_, hway, hlead⟩
      have hbefore : m.last.before.head? = lastOf c.before.head? w := by
        rw [hlead.before]
        exact head?_before_beyond c w
      rw [replacedAt_found hadvances hm, ← Cursor.after_fresh c, hlead.after]
      rw [hbefore] at ih
      rw [hlead.after] at hafter
      obtain rfl := List.append_cancel_left hafter
      exact .found hspot ih
  | skipped c x rest hm hx ih =>
      rw [replacedAt_skipped hadvances hm hx, hx]
      rw [Cursor.after_beyond hx] at ih
      refine .copied (fun w rest' hsplit hspot => ?_) ih
      obtain ⟨d, hway, -⟩ :=
        (hn c.fresh w).mpr ⟨rest', hspot, by rw [Cursor.after_fresh, hx, hsplit]⟩
      exact matchAt_ne_none hway hm
  | finished c hm hx =>
      rw [replacedAt_finished hm hx, hx]
      exact .finished _

theorem PassesOver.exchanges_replace (hn : n.PassesOver spot) (hadvances : n.Advances)
    (out text : List Char) :
    Exchanges spot out none text (n.replace none (fun _ => out) text) := by
  rw [replace_eq_replacedAt hadvances]
  exact hn.exchanges_replacedAt hadvances (.start text)

theorem Reads.exchanges_replace (hn : n.Reads spot) (hd : Definite spot) (out text : List Char) :
    Exchanges spot out none text (n.replace none (fun _ => out) text) :=
  hn.passesOver.exchanges_replace (hn.advances hd) out text

theorem Reads.replace_eq (hn : n.Reads spot) (hd : Definite spot) {text v : List Char}
    (h : Exchanges spot out none text v) : n.replace none (fun _ => out) text = v :=
  (hn.exchanges_replace hd out text).unique hd h

/-- The spots of a given word. -/
def wordSpot (v : List Char) : Spot := fun _ w _ => w = v

theorem reads_word (v : String) : (word v).Reads (wordSpot v.toList) := by
  intro c d
  rw [mem_ways_word]
  constructor
  · rintro ⟨hstart, rfl⟩
    exact ⟨v.toList, _, rfl, (Cursor.leads_beyond hstart).after, rfl⟩
  · rintro ⟨_, rest, rfl, hafter, rfl⟩
    exact ⟨⟨rest, hafter.symm⟩, rfl⟩

theorem definite_wordSpot {v : List Char} (hv : v ≠ []) : Definite (wordSpot v) where
  ne_nil h := by rwa [show _ = v from h]
  unique h h' _ := h.trans h'.symm

theorem bare_wordSpot_iff {v s : List Char} {left : Option Char} :
    Bare (wordSpot v) left s ↔ ¬v <+: s := by
  constructor
  · rintro h ⟨rest, rfl⟩
    exact h v rest rfl rfl
  · rintro h w rest rfl rfl
    exact h (List.prefix_append _ _)

end Node

end ScriptModules.Pattern
