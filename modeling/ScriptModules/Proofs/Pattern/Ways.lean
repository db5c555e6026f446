import ScriptModules.Pattern.Search
import Mathlib.Data.List.Infix

/-!
# The ways of a pattern

Running a pattern hands cursors to a continuation until one is accepted. The cursors do not depend
on the continuation: they form a list, in order of preference, and running is the search of that
list. What a pattern can match is membership in the list, and what it does match is the head of it.
-/

namespace ScriptModules.Pattern

namespace Cursor

/-- The cursor beyond a text that stands here. -/
def beyond (c : Cursor) (s : List Char) : Cursor :=
  { c with
    pos := c.pos + s.length
    before := s.reverse ++ c.before
    after := c.after.drop s.length }

/-- Records a text as a group. -/
def record (c : Cursor) (index : Nat) (s : List Char) : Cursor :=
  { c with groups := (index, s) :: c.groups }

/-- Between the two cursors stands the text `s`. -/
structure Leads (c d : Cursor) (s : List Char) : Prop where
  after : c.after = s ++ d.after
  before : d.before = s.reverse ++ c.before
  pos : d.pos = c.pos + s.length

variable {c d e : Cursor} {s t : List Char}

@[simp] theorem beyond_nil (c : Cursor) : c.beyond [] = c := by simp [beyond]

@[simp] theorem beyond_beyond (c : Cursor) (s t : List Char) :
    (c.beyond s).beyond t = c.beyond (s ++ t) := by
  simp [beyond, Nat.add_assoc, List.drop_drop]

@[simp] theorem groups_beyond (c : Cursor) (s : List Char) : (c.beyond s).groups = c.groups := rfl

@[simp] theorem before_beyond (c : Cursor) (s : List Char) :
    (c.beyond s).before = s.reverse ++ c.before := rfl

theorem after_beyond (h : c.after = s ++ t) : (c.beyond s).after = t := by simp [beyond, h]

theorem past_eq_beyond {x : Char} {rest : List Char} (h : c.after = x :: rest) :
    c.past x rest = c.beyond [x] := by
  simp [past, beyond, h]

@[simp] theorem groups_record (c : Cursor) (i : Nat) (s : List Char) :
    (c.record i s).groups = (i, s) :: c.groups := rfl

theorem beyond_record (c : Cursor) (i : Nat) (s t : List Char) :
    (c.record i s).beyond t = (c.beyond t).record i s := rfl

theorem Leads.refl (c : Cursor) : c.Leads c [] := ⟨rfl, rfl, rfl⟩

theorem Leads.trans (h : c.Leads d s) (h' : d.Leads e t) : c.Leads e (s ++ t) :=
  ⟨by rw [h.after, h'.after, List.append_assoc], by rw [h'.before, h.before]; simp,
    by rw [h'.pos, h.pos]; simp [Nat.add_assoc]⟩

theorem leads_beyond (h : s <+: c.after) : c.Leads (c.beyond s) s := by
  obtain ⟨t, ht⟩ := h
  exact ⟨by rw [after_beyond ht.symm, ht], rfl, rfl⟩

theorem Leads.record (h : c.Leads d s) (i : Nat) (t : List Char) : c.Leads (d.record i t) s :=
  ⟨h.after, h.before, h.pos⟩

theorem Leads.capture (h : c.Leads d s) (i : Nat) : d.capture i c = d.record i s := by
  simp [Cursor.capture, Cursor.record, h.after, h.pos]

theorem Leads.text (h : c.Leads d s) : d.text = c.text := by
  simp [Cursor.text, h.after, h.before]

/-- A text that is compared as written is moved over. -/
theorem skip_exact (c : Cursor) (s : List Char) :
    c.skip .exact s = if s.isPrefixOf c.after then some (c.beyond s) else none := by
  induction s generalizing c with
  | nil => simp [skip]
  | cons x s ih =>
      cases h : c.after with
      | nil => simp [skip, h]
      | cons y rest =>
          rw [skip, h]
          by_cases hxy : x = y
          · subst hxy
            have hafter : (c.beyond [x]).after = rest := after_beyond h
            simp [CaseRule.sameLower, ih, hafter, past_eq_beyond h, List.isPrefixOf]
          · simp [CaseRule.sameLower, hxy, List.isPrefixOf]

/-- However characters are compared, only text that stands here is moved over. -/
theorem exists_leads_of_skip {rule : CaseRule} (h : c.skip rule s = some d) : ∃ t, c.Leads d t := by
  induction s generalizing c with
  | nil =>
      obtain rfl := Option.some.inj h
      exact ⟨[], Leads.refl _⟩
  | cons x s ih =>
      rw [skip] at h
      cases hc : c.after with
      | nil => simp [hc] at h
      | cons y rest =>
          simp only [hc] at h
          split at h
          · obtain ⟨t, ht⟩ := ih h
            have hy : c.Leads (c.past y rest) [y] := ⟨hc, rfl, rfl⟩
            exact ⟨[y] ++ t, hy.trans ht⟩
          · simp at h

end Cursor

namespace Matcher

/-- The cursors after a fixed number of turns. -/
def timesWays (turn : Cursor → List Cursor) : Nat → Cursor → List Cursor
  | 0, c => [c]
  | n + 1, c => (turn c).flatMap (timesWays turn n)

/-- The cursors after optional turns, as many as possible first. -/
def greedyWays (turn : Cursor → List Cursor) :
    List Char → Option Nat → Option Nat → Cursor → List Cursor
  | [], _, _, c => [c]
  | _ :: measure, room, last, c =>
    if exhausted room last c then [c]
    else (turn c).flatMap (greedyWays turn measure (room.map (· - 1)) (some c.pos)) ++ [c]

/-- The cursors after optional turns, as few as possible first. -/
def reluctantWays (turn : Cursor → List Cursor) :
    List Char → Option Nat → Option Nat → Cursor → List Cursor
  | [], _, _, c => [c]
  | _ :: measure, room, last, c =>
    c :: if exhausted room last c then []
      else (turn c).flatMap (reluctantWays turn measure (room.map (· - 1)) (some c.pos))

/-- The cursors after a repetition. -/
def loopWays (turn : Matcher) (ways : Cursor → List Cursor) (least : Nat) (most : Option Nat) :
    Greed → Cursor → List Cursor
  | .greedy, c =>
    (timesWays ways least c).flatMap fun c' => greedyWays ways ('.' :: c'.after)
      (most.map (· - least)) none c'
  | .reluctant, c =>
    (timesWays ways least c).flatMap fun c' =>
      reluctantWays ways ('.' :: c'.after) (most.map (· - least)) none c'
  | .possessive, c =>
    (timesWays (fun c => (ways c).head?.toList) least c).map fun c' =>
      possessive turn ('.' :: c'.after) (most.map (· - least)) none c'

theorem orElse_eq_or (first second : Option Cursor) :
    orElse first (fun _ => second) = first.or second := by
  cases first <;> rfl

theorem findSome?_flatMap {α β γ : Type} (l : List α) (f : α → List β) (k : β → Option γ) :
    (l.flatMap f).findSome? k = l.findSome? fun a => (f a).findSome? k := by
  induction l with
  | nil => rfl
  | cons a rest ih =>
      rw [List.flatMap_cons, List.findSome?_append, ih, List.findSome?_cons]
      cases (f a).findSome? k <;> rfl

variable {turn : Matcher} {ways : Cursor → List Cursor}

theorem times_eq_findSome? (h : ∀ c k, turn c k = (ways c).findSome? k) (n : Nat) (c : Cursor)
    (k : Continuation) : times turn n c k = (timesWays ways n c).findSome? k := by
  induction n generalizing c with
  | zero => simp [times, timesWays]
  | succ n ih => rw [times, timesWays, h, findSome?_flatMap, funext ih]

theorem greedy_eq_findSome? (h : ∀ c k, turn c k = (ways c).findSome? k) (k : Continuation)
    (measure : List Char) (room last : Option Nat) (c : Cursor) :
    greedy turn k measure room last c = (greedyWays ways measure room last c).findSome? k := by
  induction measure generalizing room last c with
  | nil => simp [greedy, greedyWays]
  | cons x measure ih =>
      rw [greedy, greedyWays]
      split
      · simp
      · rw [orElse_eq_or, h, List.findSome?_append, findSome?_flatMap, funext (ih _ _)]
        simp

theorem reluctant_eq_findSome? (h : ∀ c k, turn c k = (ways c).findSome? k) (k : Continuation)
    (measure : List Char) (room last : Option Nat) (c : Cursor) :
    reluctant turn k measure room last c =
      (reluctantWays ways measure room last c).findSome? k := by
  induction measure generalizing room last c with
  | nil => simp [reluctant, reluctantWays]
  | cons x measure ih =>
      rw [reluctant, reluctantWays, orElse_eq_or, List.findSome?_cons]
      have hrest : (if exhausted room last c then none
            else turn c fun c' => reluctant turn k measure (room.map (· - 1)) (some c.pos) c') =
          (if exhausted room last c then []
            else (ways c).flatMap
              (reluctantWays ways measure (room.map (· - 1)) (some c.pos))).findSome? k := by
        split
        · rfl
        · rw [h, findSome?_flatMap, funext (ih _ _)]
      rw [hrest]
      cases k c <;> rfl

theorem once_eq_findSome? (h : ∀ c k, turn c k = (ways c).findSome? k) (c : Cursor)
    (k : Continuation) :
    once turn c k = ((ways c).head?.toList).findSome? k := by
  rw [once, h]
  cases ways c <;> simp

theorem loop_eq_findSome? (h : ∀ c k, turn c k = (ways c).findSome? k) (least : Nat)
    (most : Option Nat) (greed : Greed) (c : Cursor) (k : Continuation) :
    loop turn least most greed c k = (loopWays turn ways least most greed c).findSome? k := by
  cases greed with
  | greedy =>
      rw [loop, loopWays, times_eq_findSome? h, findSome?_flatMap]
      simp only [greedy_eq_findSome? h]
  | reluctant =>
      rw [loop, loopWays, times_eq_findSome? h, findSome?_flatMap]
      simp only [reluctant_eq_findSome? h]
  | possessive =>
      rw [loop, loopWays, times_eq_findSome? (once_eq_findSome? h), List.findSome?_map]
      rfl

section Closure

variable {r : Cursor → Cursor → Prop} (hrefl : ∀ c, r c c)
  (htrans : ∀ {c d e}, r c d → r d e → r c e)

include hrefl htrans

theorem timesWays_closed (h : ∀ {c d}, d ∈ ways c → r c d) {n : Nat} {c d : Cursor}
    (hd : d ∈ timesWays ways n c) : r c d := by
  induction n generalizing c with
  | zero =>
      obtain rfl := List.mem_singleton.mp hd
      exact hrefl d
  | succ n ih =>
      obtain ⟨e, he, hd⟩ := List.mem_flatMap.mp hd
      exact htrans (h he) (ih hd)

theorem greedyWays_closed (h : ∀ {c d}, d ∈ ways c → r c d) {measure : List Char}
    {room last : Option Nat} {c d : Cursor} (hd : d ∈ greedyWays ways measure room last c) :
    r c d := by
  induction measure generalizing room last c with
  | nil =>
      obtain rfl := List.mem_singleton.mp hd
      exact hrefl d
  | cons x measure ih =>
      rw [greedyWays] at hd
      split at hd
      · obtain rfl := List.mem_singleton.mp hd
        exact hrefl d
      · rcases List.mem_append.mp hd with hd | hd
        · obtain ⟨e, he, hd⟩ := List.mem_flatMap.mp hd
          exact htrans (h he) (ih hd)
        · obtain rfl := List.mem_singleton.mp hd
          exact hrefl d

theorem reluctantWays_closed (h : ∀ {c d}, d ∈ ways c → r c d) {measure : List Char}
    {room last : Option Nat} {c d : Cursor} (hd : d ∈ reluctantWays ways measure room last c) :
    r c d := by
  induction measure generalizing room last c with
  | nil =>
      obtain rfl := List.mem_singleton.mp hd
      exact hrefl d
  | cons x measure ih =>
      rw [reluctantWays] at hd
      rcases List.mem_cons.mp hd with rfl | hd
      · exact hrefl d
      · split at hd
        · simp at hd
        · obtain ⟨e, he, hd⟩ := List.mem_flatMap.mp hd
          exact htrans (h he) (ih hd)

theorem possessive_closed (h : ∀ {c d}, turn c some = some d → r c d) (measure : List Char)
    (room last : Option Nat) (c : Cursor) : r c (possessive turn measure room last c) := by
  induction measure generalizing room last c with
  | nil => exact hrefl c
  | cons x measure ih =>
      rw [possessive]
      split
      · exact hrefl c
      · split
        · exact hrefl c
        · rename_i e he
          exact htrans (h he) (ih _ _ e)

/-- What one turn preserves, a repetition preserves. -/
theorem loopWays_closed (hturn : ∀ c k, turn c k = (ways c).findSome? k)
    (h : ∀ {c d}, d ∈ ways c → r c d) {least : Nat} {most : Option Nat} {greed : Greed}
    {c d : Cursor} (hd : d ∈ loopWays turn ways least most greed c) : r c d := by
  have hhead : ∀ {c d}, d ∈ (ways c).head?.toList → r c d := fun hd =>
    h (List.mem_of_mem_head? (Option.mem_toList.mp hd))
  cases greed with
  | greedy =>
      obtain ⟨e, he, hd⟩ := List.mem_flatMap.mp hd
      exact htrans (timesWays_closed hrefl htrans h he) (greedyWays_closed hrefl htrans h hd)
  | reluctant =>
      obtain ⟨e, he, hd⟩ := List.mem_flatMap.mp hd
      exact htrans (timesWays_closed hrefl htrans h he) (reluctantWays_closed hrefl htrans h hd)
  | possessive =>
      obtain ⟨e, he, rfl⟩ := List.mem_map.mp hd
      have hfirst : ∀ {c d}, turn c some = some d → r c d := fun {c d} hcd => by
        obtain ⟨e, he, hed⟩ := List.exists_of_findSome?_eq_some (hturn c some ▸ hcd)
        exact Option.some.inj hed ▸ h he
      exact htrans (timesWays_closed hrefl htrans hhead he)
        (possessive_closed hrefl htrans hfirst _ _ _ e)

end Closure

end Matcher

namespace Node

/-- The cursors to which a pattern leads, the preferred one first. -/
def ways : Node → Cursor → List Cursor
  | .empty, c => [c]
  | .set s, c =>
    match c.after with
    | [] => []
    | x :: rest => if s.contains x then [c.past x rest] else []
  | .seq first second, c => (first.ways c).flatMap second.ways
  | .alt first second, c => first.ways c ++ second.ways c
  | .group index body, c => (body.ways c).map (·.capture index c)
  | .backref index rule, c => ((c.group? index).bind fun s => c.skip rule s).toList
  | .anchor a, c => if c.holds a then [c] else []
  | .look side negated body, c =>
    match (c.origin side).bind fun o => (body.ways o).head? with
    | some c' => if negated then [] else [{ c with groups := c'.groups }]
    | none => if negated then [c] else []
  | .loop greed least most body, c => Matcher.loopWays body.run body.ways least most greed c
  | .atomic body, c => (body.ways c).head?.toList
  | .branch index present absent, c =>
    if (c.group? index).isSome then present.ways c else absent.ways c

/-- Running a pattern is searching its ways for one that the continuation accepts. -/
theorem run_eq_findSome? (n : Node) (c : Cursor) (k : Continuation) :
    n.run c k = (n.ways c).findSome? k := by
  induction n generalizing c k with
  | empty => simp [run, ways]
  | set s =>
      rw [run, ways]
      cases c.after with
      | nil => rfl
      | cons x rest => by_cases hx : s.contains x = true <;> simp [hx]
  | seq first second ihf ihs =>
      rw [run, ways, ihf, Matcher.findSome?_flatMap, funext fun c' => ihs c' k]
  | alt first second ihf ihs =>
      rw [run, ways, Matcher.orElse_eq_or, List.findSome?_append, ihf, ihs]
  | group index body ih => rw [run, ways, ih, List.findSome?_map]; rfl
  | backref index rule =>
      rw [run, ways]
      cases (c.group? index).bind fun s => c.skip rule s <;> simp
  | anchor a =>
      rw [run, ways]
      split <;> simp
  | look side negated body ih =>
      have hhead : ((c.origin side).bind fun o => body.run o some) =
          (c.origin side).bind fun o => (body.ways o).head? := by
        congr 1
        funext o
        rw [ih]
        cases body.ways o <;> rfl
      rw [run, ways, hhead]
      cases (c.origin side).bind fun o => (body.ways o).head? <;> cases negated <;> simp
  | loop greed least most body ih => exact Matcher.loop_eq_findSome? ih least most greed c k
  | atomic body ih => exact Matcher.once_eq_findSome? ih c k
  | branch index present absent ihp iha =>
      rw [run, ways]
      split
      · exact ihp c k
      · exact iha c k

theorem run_some (n : Node) (c : Cursor) : n.run c some = (n.ways c).head? := by
  rw [run_eq_findSome?]
  cases n.ways c <;> rfl

/-- What a run returns comes from one of the ways. -/
theorem exists_way_of_run {n : Node} {c d : Cursor} {k : Continuation} (h : n.run c k = some d) :
    ∃ e ∈ n.ways c, k e = some d :=
  List.exists_of_findSome?_eq_some (run_eq_findSome? n c k ▸ h)

/-- A look at the surroundings stays here, and at most adds captures. -/
theorem eq_of_mem_ways_look {side : Side} {negated : Bool} {body : Node} {c d : Cursor}
    (h : d ∈ (Node.look side negated body).ways c) :
    d = c ∨ ∃ o e, c.origin side = some o ∧ e ∈ body.ways o ∧
      d = { c with groups := e.groups } := by
  rw [ways] at h
  split at h
  · rename_i e he
    obtain ⟨o, ho, he⟩ := Option.bind_eq_some_iff.mp he
    split at h
    · simp at h
    · exact .inr ⟨o, e, ho, List.mem_of_mem_head? he, List.mem_singleton.mp h⟩
  · split at h
    · exact .inl (List.mem_singleton.mp h)
    · simp at h

/-- A pattern leads forward over text that stands here. -/
theorem exists_leads_of_mem_ways {n : Node} {c d : Cursor} (h : d ∈ n.ways c) :
    ∃ s, c.Leads d s := by
  induction n generalizing c d with
  | empty =>
      obtain rfl := List.mem_singleton.mp h
      exact ⟨[], .refl d⟩
  | set s =>
      rw [ways] at h
      cases hc : c.after with
      | nil => simp [hc] at h
      | cons x rest =>
          simp only [hc] at h
          split at h
          · obtain rfl := List.mem_singleton.mp h
            exact ⟨[x], hc, rfl, rfl⟩
          · simp at h
  | seq first second ihf ihs =>
      obtain ⟨e, he, hd⟩ := List.mem_flatMap.mp h
      obtain ⟨s, hs⟩ := ihf he
      obtain ⟨t, ht⟩ := ihs hd
      exact ⟨s ++ t, hs.trans ht⟩
  | alt first second ihf ihs =>
      rcases List.mem_append.mp h with h | h
      · exact ihf h
      · exact ihs h
  | group index body ih =>
      obtain ⟨e, he, rfl⟩ := List.mem_map.mp h
      obtain ⟨s, hs⟩ := ih he
      exact ⟨s, hs.after, hs.before, hs.pos⟩
  | backref index rule =>
      obtain ⟨s, -, hs⟩ := Option.bind_eq_some_iff.mp (Option.mem_toList.mp h)
      exact Cursor.exists_leads_of_skip hs
  | anchor a =>
      rw [ways] at h
      split at h
      · obtain rfl := List.mem_singleton.mp h
        exact ⟨[], .refl d⟩
      · simp at h
  | look side negated body _ =>
      rcases eq_of_mem_ways_look h with rfl | ⟨o, e, -, -, rfl⟩
      · exact ⟨[], .refl d⟩
      · exact ⟨[], rfl, rfl, rfl⟩
  | loop greed least most body ih =>
      refine Matcher.loopWays_closed (fun c => ⟨[], .refl c⟩) ?_ (run_eq_findSome? body) ih h
      rintro c d e ⟨s, hs⟩ ⟨t, ht⟩
      exact ⟨s ++ t, hs.trans ht⟩
  | atomic body ih => exact ih (List.mem_of_mem_head? (Option.mem_toList.mp h))
  | branch index present absent ihp iha =>
      rw [ways] at h
      split at h
      · exact ihp h
      · exact iha h

end Node

end ScriptModules.Pattern
