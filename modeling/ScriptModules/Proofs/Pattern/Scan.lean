import ScriptModules.Proofs.Pattern.Runs

/-!
# Scanning a text

A pattern that always takes at least one character cuts a text into matches and single characters
without ever staying in place. The cut at a cursor is then the match there and the cut after it, or
the next character and the cut after that. Replacing matches and listing them follow the same steps,
and so does the induction over all cursors of a scan.
-/

namespace ScriptModules.Pattern

/-- The cursor without captured groups. -/
def Cursor.fresh (c : Cursor) : Cursor := { c with groups := [] }

@[simp] theorem Cursor.after_fresh (c : Cursor) : c.fresh.after = c.after := rfl

@[simp] theorem Cursor.before_fresh (c : Cursor) : c.fresh.before = c.before := rfl

@[simp] theorem Cursor.pos_fresh (c : Cursor) : c.fresh.pos = c.pos := rfl

namespace Node

variable {n : Node} {c d : Cursor} {m : Match}

/-- Every way of the pattern takes at least one character. -/
def Advances (n : Node) : Prop := ∀ c d : Cursor, d ∈ n.ways c → c.pos < d.pos

theorem advances_word {w : String} (hw : w.toList ≠ []) : (word w).Advances := by
  intro c d h
  obtain ⟨-, rfl⟩ := mem_ways_word.mp h
  simpa [Cursor.beyond] using List.length_pos_iff.mpr hw

theorem advances_set (s : CharSet) : (Node.set s).Advances := by
  intro c d h
  obtain ⟨x, -, -, rfl⟩ := mem_ways_set.mp h
  simp [Cursor.beyond]

theorem pos_le_of_mem_ways (h : d ∈ n.ways c) : c.pos ≤ d.pos := by
  obtain ⟨s, hs⟩ := exists_leads_of_mem_ways h
  rw [hs.pos]
  exact Nat.le_add_right _ _

theorem advances_seq_left {first second : Node} (h : first.Advances) :
    (first.seq second).Advances := by
  intro c d hd
  obtain ⟨e, he, hd⟩ := mem_ways_seq.mp hd
  exact Nat.lt_of_lt_of_le (h _ _ he) (pos_le_of_mem_ways hd)

theorem advances_seq_right {first second : Node} (h : second.Advances) :
    (first.seq second).Advances := by
  intro c d hd
  obtain ⟨e, he, hd⟩ := mem_ways_seq.mp hd
  exact Nat.lt_of_le_of_lt (pos_le_of_mem_ways he) (h _ _ hd)

theorem matchAt_eq_head? (n : Node) (c : Cursor) :
    n.matchAt false c = (n.ways c.fresh).head?.map fun d => ⟨c.fresh, d⟩ := by
  rw [← run_some]
  rfl

theorem Takes.matchAt (h : n.Takes c.fresh d) : n.matchAt false c = some ⟨c.fresh, d⟩ := by
  rw [matchAt_eq_head?, h]
  rfl

theorem takes_of_matchAt {m : Match} (h : n.matchAt false c = some m) : n.Takes c.fresh m.last := by
  rw [matchAt_eq_head?] at h
  obtain ⟨d, hd, rfl⟩ := Option.map_eq_some_iff.mp h
  exact hd

/-- A match starts at the cursor and ends at one of the ways from there. -/
theorem matchAt_sound {nonEmpty : Bool} (h : n.matchAt nonEmpty c = some m) :
    m.first = c.fresh ∧ m.last ∈ n.ways c.fresh := by
  obtain ⟨d, hd, rfl⟩ := Option.map_eq_some_iff.mp h
  obtain ⟨e, he, hed⟩ := exists_way_of_run hd
  split at hed
  · simp at hed
  · obtain rfl := Option.some.inj hed
    exact ⟨rfl, he⟩

/-- A match of the whole text ends where the text ends. -/
theorem mem_ways_of_matchWhole {text : List Char} (h : n.matchWhole text = some m) :
    m.last ∈ n.ways (.start text) ∧ m.last.after = [] := by
  obtain ⟨e, he, hend⟩ := mem_ways_seq.mp (matchAt_sound h).2
  obtain ⟨hend, rfl⟩ := mem_ways_anchor.mp hend
  exact ⟨he, List.isEmpty_iff.mp hend⟩

theorem matchAt_eq_none_iff : n.matchAt false c = none ↔ n.ways c.fresh = [] := by
  rw [matchAt_eq_head?]
  cases n.ways c.fresh <;> simp

theorem matchAt_ne_none (h : d ∈ n.ways c.fresh) : n.matchAt false c ≠ none := by
  intro hnone
  rw [matchAt_eq_none_iff.mp hnone] at h
  cases h

theorem exists_leads_of_matchAt {nonEmpty : Bool} (h : n.matchAt nonEmpty c = some m) :
    ∃ s, c.Leads m.last s := by
  obtain ⟨s, hs⟩ := exists_leads_of_mem_ways (matchAt_sound h).2
  exact ⟨s, hs.after, hs.before, hs.pos⟩

theorem isEmpty_of_advances (hn : n.Advances) {nonEmpty : Bool}
    (h : n.matchAt nonEmpty c = some m) :
    m.isEmpty = false := by
  obtain ⟨hfirst, hlast⟩ := matchAt_sound h
  have hpos := hn _ _ hlast
  rw [Match.isEmpty, hfirst]
  exact beq_eq_false_iff_ne.mpr (Nat.ne_of_gt hpos)

theorem length_after_lt_of_mem_ways (hn : n.Advances) (h : d ∈ n.ways c) :
    d.after.length < c.after.length := by
  obtain ⟨s, hs⟩ := exists_leads_of_mem_ways h
  have hpos := hn _ _ h
  have hlength := congrArg List.length hs.after
  rw [List.length_append] at hlength
  rw [hs.pos] at hpos
  omega

/-- An optional part that advances is left out at the end of a text. -/
theorem takes_optional_of_end (hn : n.Advances) (h : c.after = []) :
    (Node.optional n).Takes c c := by
  apply takes_optional_of_nil
  rw [List.eq_nil_iff_forall_not_mem]
  intro d hd
  have hlength := length_after_lt_of_mem_ways hn hd
  simp [h] at hlength

theorem length_after_lt_of_matchAt (hn : n.Advances) {nonEmpty : Bool}
    (h : n.matchAt nonEmpty c = some m) : m.last.after.length < c.after.length :=
  @length_after_lt_of_mem_ways _ c.fresh _ hn (matchAt_sound h).2

/-- The pieces of the text from a cursor on. -/
def piecesAt (n : Node) (room : Option Nat) (c : Cursor) : List Piece :=
  n.piecesFrom (c.after.length + 1) room false c

/-- A pattern that advances needs no more steps than there are characters. -/
theorem piecesFrom_eq_piecesAt (hn : n.Advances) {steps : Nat} {room : Option Nat} {c : Cursor}
    (hsteps : c.after.length < steps) : n.piecesFrom steps room false c = n.piecesAt room c := by
  suffices h : ∀ k l : Nat, c.after.length < k → c.after.length < l →
      n.piecesFrom k room false c = n.piecesFrom l room false c from
    h _ _ hsteps (Nat.lt_succ_self _)
  intro k
  induction k generalizing c room with
  | zero => intro l hk; omega
  | succ k ih =>
      intro l hk hl
      obtain ⟨l, rfl⟩ : ∃ l', l = l' + 1 := ⟨l - 1, by omega⟩
      rw [piecesFrom, piecesFrom]
      cases hm : (if room == some 0 then none else n.matchAt false c) with
      | some m =>
          have hmatch : n.matchAt false c = some m := by
            split at hm
            · simp at hm
            · exact hm
          have hlt := length_after_lt_of_matchAt hn hmatch
          simp only [isEmpty_of_advances hn hmatch]
          rw [ih (by omega) l (by omega) (by omega)]
      | none =>
          cases hc : c.after with
          | nil => rfl
          | cons x rest =>
              have hrest : (c.past x rest).after.length < c.after.length := by
                simp [Cursor.past, hc]
              simp only
              rw [ih (by omega) l (by omega) (by omega)]

theorem pieces_eq_piecesAt (hn : n.Advances) (room : Option Nat) (text : List Char) :
    n.pieces room text = n.piecesAt room (.start text) :=
  piecesFrom_eq_piecesAt hn (by simp [Cursor.start]; omega)

theorem piecesAt_found (hn : n.Advances) {room : Option Nat} (hroom : room ≠ some 0)
    (h : n.matchAt false c = some m) :
    n.piecesAt room c = .found m :: n.piecesAt (room.map (· - 1)) m.last := by
  have hlt := length_after_lt_of_matchAt hn h
  have hmatch : (if room == some 0 then none else n.matchAt false c) = some m := by simp [hroom, h]
  rw [piecesAt, piecesFrom, hmatch]
  simp only [isEmpty_of_advances hn h]
  rw [piecesFrom_eq_piecesAt hn (by omega)]

theorem piecesAt_skipped (hn : n.Advances) {room : Option Nat} {x : Char} {rest : List Char}
    (h : n.matchAt false c = none) (hc : c.after = x :: rest) :
    n.piecesAt room c = .skipped x :: n.piecesAt room (c.beyond [x]) := by
  have hmatch : (if room == some 0 then none else n.matchAt false c) = none := by simp [h]
  have hafter : (c.beyond [x]).after = rest := Cursor.after_beyond hc
  rw [piecesAt, piecesFrom, hmatch, hc]
  simp only [Cursor.past_eq_beyond hc]
  rw [piecesFrom_eq_piecesAt hn (by simp [hafter])]

theorem piecesAt_finished {room : Option Nat} (h : n.matchAt false c = none) (hc : c.after = []) :
    n.piecesAt room c = [] := by
  rw [piecesAt, piecesFrom, h, hc]
  simp

/-- Text in which no match starts is skipped. -/
theorem piecesAt_skips (hn : n.Advances) {room : Option Nat} {s rest : List Char}
    (hc : c.after = s ++ rest)
    (hnone : ∀ a x b, s = a ++ x :: b → n.matchAt false (c.beyond a) = none) :
    n.piecesAt room c = s.map .skipped ++ n.piecesAt room (c.beyond s) := by
  induction s generalizing c with
  | nil => simp
  | cons x s ih =>
      have hfirst : n.matchAt false c = none := by simpa using hnone [] x s rfl
      have hafter : (c.beyond [x]).after = s ++ rest := Cursor.after_beyond hc
      have hrest := ih hafter fun a y b hs => by simpa using hnone (x :: a) y b (by simp [hs])
      rw [piecesAt_skipped hn hfirst hc, hrest, Cursor.beyond_beyond]
      rfl

/-- A property of all cursors of a scan goes from the cursor after each step to the cursor before
it. -/
@[elab_as_elim]
theorem scan_induction (hn : n.Advances) {motive : Cursor → Prop}
    (found : ∀ c m, n.matchAt false c = some m → motive m.last → motive c)
    (skipped : ∀ c x rest, n.matchAt false c = none → c.after = x :: rest →
      motive (c.beyond [x]) → motive c)
    (finished : ∀ c, n.matchAt false c = none → c.after = [] → motive c) (c : Cursor) :
    motive c := by
  induction h : c.after.length using Nat.strongRecOn generalizing c with
  | ind k ih =>
      subst h
      cases hm : n.matchAt false c with
      | some m => exact found c m hm (ih _ (length_after_lt_of_matchAt hn hm) _ rfl)
      | none =>
          cases hc : c.after with
          | nil => exact finished c hm hc
          | cons x rest =>
              have hafter : (c.beyond [x]).after = rest := Cursor.after_beyond hc
              exact skipped c x rest hm hc (ih _ (by simp [hafter, hc]) _ rfl)

/-- The outcome of replacing all matches from a cursor on. -/
def replacedAt (n : Node) (f : Match → List Char) (c : Cursor) : List Char :=
  (n.piecesAt none c).flatMap fun
    | .skipped x => [x]
    | .found m => f m

section Replace

variable {f : Match → List Char}

theorem replace_eq_replacedAt (hn : n.Advances) (f : Match → List Char) (text : List Char) :
    n.replace none f text = n.replacedAt f (.start text) := by
  rw [replace, pieces_eq_piecesAt hn]
  rfl

theorem replacedAt_found (hn : n.Advances) (h : n.matchAt false c = some m) :
    n.replacedAt f c = f m ++ n.replacedAt f m.last := by
  rw [replacedAt, piecesAt_found hn (by simp : (none : Option Nat) ≠ some 0) h]
  rfl

theorem replacedAt_skipped (hn : n.Advances) {x : Char} {rest : List Char}
    (h : n.matchAt false c = none) (hc : c.after = x :: rest) :
    n.replacedAt f c = x :: n.replacedAt f (c.beyond [x]) := by
  simp [replacedAt, piecesAt_skipped hn h hc]

theorem replacedAt_finished (h : n.matchAt false c = none) (hc : c.after = []) :
    n.replacedAt f c = [] := by
  simp [replacedAt, piecesAt_finished h hc]

theorem replacedAt_skips (hn : n.Advances) {s rest : List Char} (hc : c.after = s ++ rest)
    (hnone : ∀ a x b, s = a ++ x :: b → n.matchAt false (c.beyond a) = none) :
    n.replacedAt f c = s ++ n.replacedAt f (c.beyond s) := by
  rw [replacedAt, piecesAt_skips hn hc hnone, List.flatMap_append, List.flatMap_map]
  simp [replacedAt]

/-- A text in which no match starts stays as it is, however many matches may be replaced. -/
theorem replace_eq_self (hn : n.Advances) {room : Option Nat} {f : Match → List Char}
    {text : List Char}
    (h : ∀ a b, text = a ++ b → n.matchAt false ((Cursor.start text).beyond a) = none) :
    n.replace room f text = text := by
  have htext : (Cursor.start text).after = text ++ [] := (List.append_nil text).symm
  rw [replace, pieces_eq_piecesAt hn, piecesAt_skips hn htext fun a x b hab => h a _ hab,
    piecesAt_finished (h text [] htext) (Cursor.after_beyond htext)]
  simp [List.flatMap_map]

/-- Where the pattern never starts right after a character of a class, text of the class is copied
up to and including the character that ends it. -/
theorem prefix_of_replacedAt (hn : n.Advances) {p : Char → Bool}
    (hp : ∀ c : Cursor, c.before.head?.any p = true → n.matchAt false c = none) {w q : List Char}
    {y : Char} (hw : ∀ x ∈ w, p x = true) (h : n.matchAt false c = none)
    (hr : n.replacedAt f c = w ++ y :: q) :
    w ++ [y] <+: c.after := by
  induction w generalizing c with
  | nil =>
      cases hc : c.after with
      | nil => simp [replacedAt_finished h hc] at hr
      | cons x rest =>
          rw [replacedAt_skipped hn h hc] at hr
          simp [(List.cons.inj hr).1]
  | cons x w ih =>
      cases hc : c.after with
      | nil => simp [replacedAt_finished h hc] at hr
      | cons z rest =>
          rw [replacedAt_skipped hn h hc] at hr
          rw [List.cons_append, List.cons.injEq] at hr
          obtain ⟨rfl, htail⟩ := hr
          have hnext : n.matchAt false (c.beyond [z]) = none := hp _ (by simp [hw z (by simp)])
          have hrest := ih (fun x hx => hw x (by simp [hx])) hnext htail
          rw [Cursor.after_beyond hc] at hrest
          simpa [List.cons_prefix_cons] using hrest

end Replace

/-- The matches from a cursor on. -/
def matchesAt (n : Node) (c : Cursor) : List Match := (n.piecesAt none c).filterMap Piece.match?

theorem allMatches_eq_matchesAt (hn : n.Advances) (text : List Char) :
    n.allMatches text = n.matchesAt (.start text) := by
  rw [allMatches, pieces_eq_piecesAt hn]
  rfl

theorem matchesAt_found (hn : n.Advances) (h : n.matchAt false c = some m) :
    n.matchesAt c = m :: n.matchesAt m.last := by
  rw [matchesAt, piecesAt_found hn (by simp : (none : Option Nat) ≠ some 0) h]
  rfl

theorem matchesAt_skipped (hn : n.Advances) {x : Char} {rest : List Char}
    (h : n.matchAt false c = none) (hc : c.after = x :: rest) :
    n.matchesAt c = n.matchesAt (c.beyond [x]) := by
  rw [matchesAt, piecesAt_skipped hn h hc]
  rfl

theorem matchesAt_skips (hn : n.Advances) {s rest : List Char} (hc : c.after = s ++ rest)
    (hnone : ∀ a x b, s = a ++ x :: b → n.matchAt false (c.beyond a) = none) :
    n.matchesAt c = n.matchesAt (c.beyond s) := by
  rw [matchesAt, piecesAt_skips hn hc hnone, List.filterMap_append, List.filterMap_map]
  simp [matchesAt, Function.comp_def, Piece.match?]

theorem matchesAt_finished (h : n.matchAt false c = none) (hc : c.after = []) :
    n.matchesAt c = [] := by
  simp [matchesAt, piecesAt_finished h hc]

theorem matchesAt_eq_nil (hn : n.Advances)
    (h : ∀ a b, c.after = a ++ b → n.matchAt false (c.beyond a) = none) : n.matchesAt c = [] := by
  have hc : c.after = c.after ++ [] := (List.append_nil _).symm
  rw [matchesAt_skips hn hc fun a x b hab => h a _ hab,
    matchesAt_finished (h c.after [] hc) (Cursor.after_beyond hc)]

theorem allMatches_eq_nil (hn : n.Advances) {text : List Char}
    (h : ∀ a b, text = a ++ b → n.matchAt false ((Cursor.start text).beyond a) = none) :
    n.allMatches text = [] := by
  rw [allMatches_eq_matchesAt hn, matchesAt_eq_nil hn h]

end Node

end ScriptModules.Pattern
