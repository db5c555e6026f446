import ScriptModules.Proofs.Import.Clause
import ScriptModules.Proofs.Pattern.Cuts
import ScriptModules.Rule.Build

/-!
# The text of a wrapper

A wrapper starts with the head of a function and ends with a call of it, with blanks wherever they
may stand. That a script has a wrapper is found out without its blanks, and the wrapper is taken off
with them. The two views differ in one place: blanks between the braces of a default for the
argument do not count in the first and are refused in the second.
-/

namespace ScriptModules

open Pattern Pattern.Node Text

namespace Rule

/-- The text consists of blanks. -/
abbrev AllBlank (s : List Char) : Prop := ∀ x ∈ s, isBlank x = true

/-- The characters of the argument of a wrapper. -/
def argument : CharSet :=
  ⟨[.kind .word .unicode false, .char '$', .char '.', .char '=', .kind .blank .unicode false],
    false, .exact⟩

/-- The head of a wrapper, as it may be written. -/
inductive WrittenOpener : List Char → Prop
  | intro {b₁ b₂ b₃ name b₄ b₅ : List Char} (h₁ : AllBlank b₁) (h₂ : AllBlank b₂) (h₃ : AllBlank b₃)
      (hname : ∀ x ∈ name, isIdent x = true) (h₄ : AllBlank b₄) (h₅ : AllBlank b₅) :
      WrittenOpener ('(' :: (b₁ ++ ("function".toList ++ (b₂ ++ '(' :: (b₃ ++ (name ++ (b₄ ++ ')' ::
        (b₅ ++ ['\x7b']))))))))

/-- The default for the argument of a wrapper, with what stands between its braces; it may be
missing. -/
inductive WrittenDefault : List Char → List Char → Prop
  | absent : WrittenDefault [] []
  | present {b inner b' : List Char} (h : AllBlank b) (hinner : AllBlank inner) (h' : AllBlank b') :
      WrittenDefault inner ('|' :: '|' :: (b ++ '\x7b' :: (inner ++ '\x7d' :: b')))

/-- What may follow a wrapper: blanks and at most one semicolon. -/
inductive WrittenTail : List Char → Prop
  | intro {b stop b' : List Char} (h : AllBlank b) (hstop : stop = [] ∨ stop = [';'])
      (h' : AllBlank b') :
      WrittenTail (b ++ (stop ++ b'))

/-- The end of a wrapper, as it may be written, with what stands between the braces of its
default. -/
inductive WrittenCloser : Closer → List Char → List Char → Prop
  | outside {b₁ b₂ args inner default tail : List Char} (h₁ : AllBlank b₁) (h₂ : AllBlank b₂)
      (hargs : ∀ x ∈ args, argument.contains x = true) (hdefault : WrittenDefault inner default)
      (htail : WrittenTail tail) :
      WrittenCloser .outside inner
        ('\x7d' :: (b₁ ++ ')' :: (b₂ ++ '(' :: (args ++ (default ++ ')' :: tail)))))
  | inside {b₁ b₂ name b₃ b₄ tail : List Char} (h₁ : AllBlank b₁) (h₂ : AllBlank b₂)
      (hname : ∀ x ∈ name, isIdent x = true) (h₃ : AllBlank b₃) (h₄ : AllBlank b₄)
        (htail : WrittenTail tail) :
      WrittenCloser .inside []
        ('\x7d' :: (b₁ ++ '(' :: (b₂ ++ (name ++ (b₃ ++ ')' :: (b₄ ++ ')' :: tail))))))

theorem contains_argument (x : Char) :
    argument.contains x = (isIdent x || x == '.' || x == '=' || isBlank x) := by
  simp [CharSet.contains, argument, SetItem.holds, CharKind.holds, CaseRule.agree, isIdent,
    Bool.or_assoc]

theorem allBlank_nil : AllBlank [] := nofun

theorem allBlank_singleton {x : Char} (hx : isBlank x = true) : AllBlank [x] := by
  intro y hy
  rwa [List.mem_singleton.mp hy]

theorem allBlank_append {s t : List Char} (hs : AllBlank s) (ht : AllBlank t) :
    AllBlank (s ++ t) := by
  intro x hx
  rcases List.mem_append.mp hx with hx | hx
  · exact hs x hx
  · exact ht x hx

end Rule

namespace Pattern.Node

variable {m n : Node} {s t u r : List Char}

/-- Wherever the text `s` stands ahead, the preferred way of the pattern leads to where `t` stands
ahead. -/
def Consumes (n : Node) (s t : List Char) : Prop :=
  ∀ c : Cursor, c.after = s → ∃ d, n.Takes c d ∧ d.after = t

theorem Consumes.seq (hm : m.Consumes s t) (hn : n.Consumes t u) : (m.seq n).Consumes s u := by
  intro c hc
  obtain ⟨e, he, hafter⟩ := hm c hc
  obtain ⟨d, hd, hlast⟩ := hn e hafter
  exact ⟨d, he.seq hd, hlast⟩

theorem Consumes.group (hn : n.Consumes s t) (i : Nat) : (Node.group i n).Consumes s t := by
  intro c hc
  obtain ⟨d, hd, hlast⟩ := hn c hc
  obtain ⟨w, hw⟩ := exists_leads_of_mem_ways (List.mem_of_mem_head? hd)
  exact ⟨_, hd.group hw i, hlast⟩

theorem Consumes.optional (hn : n.Consumes s t) : (Node.optional n).Consumes s t := by
  intro c hc
  obtain ⟨d, hd, hlast⟩ := hn c hc
  exact ⟨d, hd.optional, hlast⟩

theorem consumes_char (x : Char) : (char x).Consumes (x :: r) r := fun _ hc =>
  ⟨_, takes_char hc, Cursor.after_beyond (s := [x]) hc⟩

theorem consumes_word (w : String) : (word w).Consumes (w.toList ++ r) r := fun _ hc =>
  ⟨_, takes_word hc, Cursor.after_beyond hc⟩

theorem consumes_many {set : CharSet} (hs : ∀ x ∈ s, set.contains x = true)
    (hr : ∀ x ∈ r.head?, set.contains x = false) :
    (many (.set set)).Consumes (s ++ r) r := fun _ hc =>
  ⟨_, takes_many_set hc hs hr, Cursor.after_beyond hc⟩

theorem consumes_blanks (hs : ∀ x ∈ s, isBlank x = true) (hr : ∀ x ∈ r.head?, isBlank x = false) :
    blanks.Consumes (s ++ r) r :=
  consumes_many (by simpa using hs) (by simpa using hr)

/-- A part that starts with another character is left out. -/
theorem consumes_optional_of_head
    (h : ∀ c d : Cursor, d ∈ n.ways c → ∃ x, c.after.head? = some x ∧ x ∉ s.head?) :
    (Node.optional n).Consumes s s := by
  intro c hc
  refine ⟨c, takes_optional_of_nil (List.eq_nil_iff_forall_not_mem.mpr fun d hd => ?_), hc⟩
  obtain ⟨x, hx, hs⟩ := h c d hd
  exact hs (by rw [← hc, hx]; rfl)

end Pattern.Node

namespace Rule

section Consuming

variable {b name b' rest out : List Char} {x : Char} {n : Node}

/-- A name that may be missing is taken. -/
theorem consumes_parameter (hname : ∀ y ∈ name, isIdent y = true)
    (hrest : ∀ y ∈ rest.head?, isIdent y = false) :
    (optional (.group 1 identifier)).Consumes (name ++ rest) rest := by
  by_cases hne : name = []
  · subst hne
    apply consumes_optional_of_head
    intro c d hd
    obtain ⟨t, hne, hall, hafter, -⟩ := passes_group_oneOrMore hd
    obtain ⟨y, t, rfl⟩ := List.exists_cons_of_ne_nil hne
    refine ⟨y, by rw [hafter]; rfl, fun hy => ?_⟩
    have hident := hall y (by simp)
    rw [CharSet.contains_ident, hrest y hy] at hident
    cases hident
  · have hident : identifier.Consumes (name ++ rest) rest := fun c hc =>
      ⟨_, takes_oneOrMore_set hc hne (by simpa using hname) (by simpa using hrest),
        Cursor.after_beyond hc⟩
    exact (hident.group 1).optional

/-- A pattern that takes a name is matched with the blanks around the name, and also if the name is
missing. -/
theorem consumes_padded {q : Node} (hq : ∀ {name rest : List Char}, (∀ y ∈ name, isIdent y = true) →
      (∀ y ∈ rest.head?, isIdent y = false) → q.Consumes (name ++ rest) rest)
    (hb : AllBlank b) (hname : ∀ y ∈ name, isIdent y = true) (hb' : AllBlank b')
    (hx : isBlank x = false ∧ isIdent x = false) (hn : n.Consumes (x :: rest) out) :
    (blanks.seq (q.seq (blanks.seq n))).Consumes (b ++ (name ++ (b' ++ x :: rest))) out := by
  by_cases hne : name = []
  · subst hne
    rw [List.nil_append, ← List.append_assoc]
    refine (consumes_blanks (allBlank_append hb hb') (by simpa using hx.1)).seq ?_
    refine (@hq [] _ (by simp) (by simpa using hx.2)).seq ?_
    exact (consumes_blanks (s := []) (by simp) (by simpa using hx.1)).seq hn
  · have hsolid : ∀ y ∈ (name ++ (b' ++ x :: rest)).head?, isBlank y = false := by
      obtain ⟨y, name, rfl⟩ := List.exists_cons_of_ne_nil hne
      simpa using isBlank_of_isIdent (hname y (by simp))
    have hend : ∀ y ∈ (b' ++ x :: rest).head?, isIdent y = false := by
      cases b' with
      | nil => simpa using hx.2
      | cons z b' => simpa using isIdent_of_isBlank (hb' z (by simp))
    exact (consumes_blanks hb hsolid).seq
      ((hq hname hend).seq ((consumes_blanks hb' (by simpa using hx.1)).seq hn))

theorem consumes_wrapperOpener {opener : List Char} (h : WrittenOpener opener) (rest : List Char) :
    wrapperOpener.Consumes (opener ++ rest) rest := by
  cases h with
  | @intro b₁ b₂ b₃ name b₄ b₅ h₁ h₂ h₃ hname h₄ h₅ =>
      simp only [List.cons_append, List.append_assoc, List.nil_append]
      have hend : (blanks.seq (char '\x7b')).Consumes (b₅ ++ '\x7b' :: rest) rest :=
        (consumes_blanks h₅ (by simp [isBlank])).seq (consumes_char _)
      have hparameter :=
        consumes_padded consumes_parameter h₃ hname h₄ (by decide) ((consumes_char ')').seq hend)
      refine (consumes_char '(').seq
        ((consumes_blanks h₁ (by simp [isBlank])).seq ((consumes_word "function").seq ?_))
      exact (consumes_blanks h₂ (by simp [isBlank])).seq ((consumes_char '(').seq hparameter)

theorem consumes_ending {tail : List Char} (h : WrittenTail tail) : ending.Consumes tail [] := by
  have hfinish : (Node.anchor .finish).Consumes [] [] := fun c hc =>
    ⟨c, takes_anchor (by rw [Cursor.holds, hc]; rfl), hc⟩
  cases h with
  | @intro b stop b' hb hstop hb' =>
      rcases hstop with rfl | rfl
      · have hnone : (optional (char ';')).Consumes [] [] := fun c hc =>
          ⟨c, takes_optional_of_end (advances_set _) hc, hc⟩
        rw [List.nil_append, ← List.append_nil (b ++ b')]
        refine (consumes_blanks (allBlank_append hb hb') (by simp)).seq (hnone.seq ?_)
        exact (consumes_blanks (s := []) (by simp) (by simp)).seq hfinish
      · refine (consumes_blanks hb (by simp [isBlank])).seq ((consumes_char ';').optional.seq ?_)
        rw [← List.append_nil b']
        exact (consumes_blanks hb' (by simp)).seq hfinish

/-- After the argument comes its default or the end of the call. -/
theorem head_default {inner default : List Char} (h : WrittenDefault inner default)
    (tail : List Char) :
    ∀ y ∈ (default ++ ')' :: tail).head?, isBlank y = false ∧ argument.contains y = false := by
  have hmarks : argument.contains ')' = false ∧ argument.contains '|' = false := by decide
  cases h with
  | absent => simpa [isBlank] using hmarks.1
  | present => simpa [isBlank] using hmarks.2

theorem consumes_argument {args inner default : List Char}
    (hargs : ∀ y ∈ args, argument.contains y = true) (hdefault : WrittenDefault inner default)
    (tail : List Char) (hn : n.Consumes (default ++ ')' :: tail) out) :
    (blanks.seq ((many (.set argument)).seq n)).Consumes
      (args ++ (default ++ ')' :: tail)) out := by
  have hnext := head_default hdefault tail
  have hsplit : args = args.takeWhile isBlank ++ args.dropWhile isBlank :=
    List.takeWhile_append_dropWhile.symm
  have hlead : AllBlank (args.takeWhile isBlank) := fun y => List.mem_takeWhile_imp
  have hsolid : ∀ y ∈ (args.dropWhile isBlank ++ (default ++ ')' :: tail)).head?,
      isBlank y = false := by
    intro y hy
    cases hrest : args.dropWhile isBlank with
    | nil =>
        rw [hrest, List.nil_append] at hy
        exact (hnext y hy).1
    | cons z rest =>
        have hhead := List.head?_dropWhile_not isBlank args
        rw [hrest] at hhead hy
        obtain rfl : z = y := by simpa using hy
        simpa using hhead
  rw [hsplit, List.append_assoc]
  refine (consumes_blanks hlead hsolid).seq ((consumes_many ?_ fun y hy => (hnext y hy).2).seq hn)
  intro y hy
  exact hargs y ((List.dropWhile_sublist isBlank).subset hy)

theorem consumes_default {default tail : List Char} (hdefault : WrittenDefault [] default)
    (hn : n.Consumes tail out) :
    ((optional (sequence [word "||", blanks, word "\x7b\x7d"])).seq
      (blanks.seq ((char ')').seq n))).Consumes
      (default ++ ')' :: tail) out := by
  cases hdefault with
  | absent =>
      have hnone : (optional (sequence [word "||", blanks, word "\x7b\x7d"])).Consumes (')' :: tail)
          (')' :: tail) := by
        apply consumes_optional_of_head
        intro c d hd
        obtain ⟨e, he, -⟩ := mem_ways_seq.mp hd
        exact ⟨'|', by rw [(passes_word he).1]; rfl, by simp⟩
      refine hnone.seq
        ((consumes_blanks (s := []) (by simp) (by simp [isBlank])).seq ((consumes_char ')').seq hn))
  | @present b _ b' hb _ hb' =>
      have hbraces : (word "\x7b\x7d").Consumes ('\x7b' :: '\x7d' :: (b' ++ ')' :: tail))
          (b' ++ ')' :: tail) :=
        consumes_word "\x7b\x7d"
      have hbars :
          (word "||").Consumes ('|' :: '|' :: (b ++ '\x7b' :: '\x7d' :: (b' ++ ')' :: tail)))
          (b ++ '\x7b' :: '\x7d' :: (b' ++ ')' :: tail)) := consumes_word "||"
      simp only [List.cons_append, List.append_assoc, List.nil_append]
      refine (hbars.seq ((consumes_blanks hb (by simp [isBlank])).seq hbraces)).optional.seq ?_
      exact (consumes_blanks hb' (by simp [isBlank])).seq ((consumes_char ')').seq hn)

/-- The end of a wrapper is taken as a whole. -/
theorem consumes_closer {k : Closer} {closing : List Char} (h : WrittenCloser k [] closing) :
    k.pattern.Consumes closing [] := by
  cases h with
  | @outside b₁ b₂ args _ default tail h₁ h₂ hargs hdefault htail =>
      have hcall :=
        consumes_argument hargs hdefault tail (consumes_default hdefault (consumes_ending htail))
      refine (consumes_char '\x7d').seq
        ((consumes_blanks h₁ (by simp [isBlank])).seq ((consumes_char ')').seq ?_))
      exact (consumes_blanks h₂ (by simp [isBlank])).seq ((consumes_char '(').seq hcall)
  | @inside b₁ b₂ name b₃ b₄ tail h₁ h₂ hname h₃ h₄ htail =>
      have hclose : ((char ')').seq (blanks.seq ((char ')').seq ending))).Consumes
          (')' :: (b₄ ++ ')' :: tail)) [] :=
        (consumes_char ')').seq ((consumes_blanks h₄ (by simp [isBlank])).seq
          ((consumes_char ')').seq (consumes_ending htail)))
      have hcall := consumes_padded (q := many (.set .ident))
        (fun hname hrest => consumes_many (by simpa using hname) (by simpa using hrest)) h₂ hname h₃
          (by decide) hclose
      refine (consumes_char '\x7d').seq ((consumes_blanks h₁ (by simp [isBlank])).seq ?_)
      exact (consumes_char '(').seq hcall

end Consuming

section Reading

variable {c d : Cursor} {k : Closer}

theorem passes_many {set : CharSet} (h : d ∈ (many (.set set)).ways c) :
    ∃ t, (∀ x ∈ t, set.contains x = true) ∧ c.after = t ++ d.after := by
  obtain ⟨t, hpre, hall, rfl⟩ := mem_ways_many_set.mp h
  exact ⟨t, hall, (Cursor.leads_beyond hpre).after⟩

/-- What follows a wrapper goes on to the end, or to a last line break. -/
theorem passes_ending (h : d ∈ ending.ways c) :
    ∃ tail, WrittenTail tail ∧ c.after = tail ++ d.after ∧ (d.after = [] ∨ d.after = ['\n']) := by
  obtain ⟨c₁, hb, h⟩ := mem_ways_seq.mp h
  obtain ⟨b, hb, hafter, -⟩ := passes_blanks hb
  obtain ⟨c₂, hstop, h⟩ := mem_ways_seq.mp h
  obtain ⟨c₃, hb', h⟩ := mem_ways_seq.mp h
  obtain ⟨b', hb', hafter₂, -⟩ := passes_blanks hb'
  obtain ⟨hfinish, rfl⟩ := mem_ways_anchor.mp h
  obtain ⟨stop, hstop, hafter₁⟩ : ∃ stop, (stop = [] ∨ stop = [';']) ∧
      c₁.after = stop ++ c₂.after := by
    rcases mem_ways_optional.mp hstop with h | rfl
    · exact ⟨[';'], .inr rfl, (passes_char h).1⟩
    · exact ⟨[], .inl rfl, rfl⟩
  refine ⟨_, .intro hb hstop hb', ?_, ?_⟩
  · rw [hafter, hafter₁, hafter₂]
    simp
  · simpa [Cursor.holds] using hfinish

/-- The blanks after the braces of a default belong to it; without a default they belong to the
argument. -/
theorem passes_default {b rest : List Char}
    (h : d ∈ (optional (sequence [word "||", blanks, word "\x7b\x7d"])).ways c) (hb : AllBlank b)
    (hafter : d.after = b ++ rest) :
    ∃ extra default, AllBlank extra ∧ WrittenDefault [] default ∧
      c.after = extra ++ (default ++ rest) := by
  rcases mem_ways_optional.mp h with h | rfl
  · obtain ⟨e₁, hbars, h⟩ := mem_ways_seq.mp h
    obtain ⟨e₂, hspace, hbraces⟩ := mem_ways_seq.mp h
    obtain ⟨space, hspace, hafter₁, -⟩ := passes_blanks hspace
    refine ⟨[], _, allBlank_nil, .present hspace allBlank_nil hb, ?_⟩
    rw [(passes_word hbars).1, hafter₁, (passes_word hbraces).1, hafter]
    simp
  · exact ⟨b, [], hb, .absent, hafter⟩

/-- The end of a wrapper is read only as it is written. -/
theorem exists_writtenCloser (h : d ∈ k.pattern.ways c) :
    ∃ closing, WrittenCloser k [] closing ∧ c.after = closing ++ d.after ∧
      (d.after = [] ∨ d.after = ['\n']) := by
  cases k with
  | outside =>
      obtain ⟨c₁, hbrace, h⟩ := mem_ways_seq.mp h
      obtain ⟨c₂, hb₁, h⟩ := mem_ways_seq.mp h
      obtain ⟨c₃, hclose, h⟩ := mem_ways_seq.mp h
      obtain ⟨c₄, hb₂, h⟩ := mem_ways_seq.mp h
      obtain ⟨c₅, hopen, h⟩ := mem_ways_seq.mp h
      obtain ⟨c₆, hb₃, h⟩ := mem_ways_seq.mp h
      obtain ⟨c₇, hargs, h⟩ := mem_ways_seq.mp h
      obtain ⟨c₈, hdefault, h⟩ := mem_ways_seq.mp h
      obtain ⟨c₉, hb₄, h⟩ := mem_ways_seq.mp h
      obtain ⟨c₁₀, hlast, hending⟩ := mem_ways_seq.mp h
      obtain ⟨b₁, hb₁, hafter₁, -⟩ := passes_blanks hb₁
      obtain ⟨b₂, hb₂, hafter₃, -⟩ := passes_blanks hb₂
      obtain ⟨b₃, hb₃, hafter₅, -⟩ := passes_blanks hb₃
      obtain ⟨b₄, hb₄, hafter₈, -⟩ := passes_blanks hb₄
      obtain ⟨args, hargs, hafter₆⟩ := passes_many hargs
      obtain ⟨tail, htail, hafter₁₀, hend⟩ := passes_ending hending
      obtain ⟨extra, default, hextra, hwritten, hafter₇⟩ := passes_default hdefault hb₄ hafter₈
      have hall : ∀ x ∈ b₃ ++ (args ++ extra), argument.contains x = true := by
        have hblank : ∀ x, isBlank x = true → argument.contains x = true := by
          intro x hx
          simp [contains_argument, hx]
        intro x hx
        rcases List.mem_append.mp hx with hx | hx
        · exact hblank x (hb₃ x hx)
        · rcases List.mem_append.mp hx with hx | hx
          · exact hargs x hx
          · exact hblank x (hextra x hx)
      refine ⟨_, .outside hb₁ hb₂ hall hwritten htail, ?_, hend⟩
      rw [(passes_char hbrace).1, hafter₁, (passes_char hclose).1, hafter₃, (passes_char hopen).1,
        hafter₅, hafter₆, hafter₇, (passes_char hlast).1, hafter₁₀]
      simp
  | inside =>
      obtain ⟨c₁, hbrace, h⟩ := mem_ways_seq.mp h
      obtain ⟨c₂, hb₁, h⟩ := mem_ways_seq.mp h
      obtain ⟨c₃, hopen, h⟩ := mem_ways_seq.mp h
      obtain ⟨c₄, hb₂, h⟩ := mem_ways_seq.mp h
      obtain ⟨c₅, hname, h⟩ := mem_ways_seq.mp h
      obtain ⟨c₆, hb₃, h⟩ := mem_ways_seq.mp h
      obtain ⟨c₇, hclose, h⟩ := mem_ways_seq.mp h
      obtain ⟨c₈, hb₄, h⟩ := mem_ways_seq.mp h
      obtain ⟨c₉, hlast, hending⟩ := mem_ways_seq.mp h
      obtain ⟨b₁, hb₁, hafter₁, -⟩ := passes_blanks hb₁
      obtain ⟨b₂, hb₂, hafter₃, -⟩ := passes_blanks hb₂
      obtain ⟨name, hname, hafter₄⟩ := passes_many hname
      obtain ⟨b₃, hb₃, hafter₅, -⟩ := passes_blanks hb₃
      obtain ⟨b₄, hb₄, hafter₇, -⟩ := passes_blanks hb₄
      obtain ⟨tail, htail, hafter₉, hend⟩ := passes_ending hending
      refine ⟨_, .inside hb₁ hb₂ (by simpa using hname) hb₃ hb₄ htail, ?_, hend⟩
      rw [(passes_char hbrace).1, hafter₁, (passes_char hopen).1, hafter₃, hafter₄, hafter₅,
        (passes_char hclose).1, hafter₇, (passes_char hlast).1, hafter₉]
      simp

theorem exists_writtenCloser_of_matchAt {m : Match} (h : k.pattern.matchAt false c = some m) :
    ∃ closing stop, WrittenCloser k [] closing ∧ c.after = closing ++ stop ∧
      (stop = [] ∨ stop = ['\n']) := by
  obtain ⟨closing, hwritten, hafter, hend⟩ := exists_writtenCloser (matchAt_sound h).2
  exact ⟨closing, _, hwritten, hafter, hend⟩

theorem advances_closer (k : Closer) : k.pattern.Advances := by
  cases k with
  | outside => exact advances_seq_left (advances_set _)
  | inside => exact advances_seq_left (advances_set _)

end Reading

section Shape

variable {k : Closer} {inner closing default tail : List Char}

theorem not_mem_of_allBlank {b : List Char} {x : Char} (hb : AllBlank b) (hx : isBlank x = false) :
    x ∉ b := by
  intro hmem
  rw [hb x hmem] at hx
  cases hx

theorem not_mem_argument {args : List Char} {x : Char}
    (hargs : ∀ y ∈ args, argument.contains y = true) (hx : argument.contains x = false) :
    x ∉ args := by
  intro hmem
  rw [hargs x hmem] at hx
  cases hx

theorem not_mem_name {name : List Char} {x : Char} (hname : ∀ y ∈ name, isIdent y = true)
    (hx : isIdent x = false) :
    x ∉ name := by
  intro hmem
  rw [hname x hmem] at hx
  cases hx

theorem WrittenTail.not_mem (h : WrittenTail tail) {x : Char} (hx : isBlank x = false)
    (hstop : x ≠ ';') :
    x ∉ tail := by
  cases h with
  | intro hb hs hb' =>
      rcases hs with rfl | rfl
      · simp [not_mem_of_allBlank hb hx, not_mem_of_allBlank hb' hx]
      · simp [not_mem_of_allBlank hb hx, not_mem_of_allBlank hb' hx, hstop]

/-- The call comes before any further closing brace. -/
theorem WrittenCloser.exists_call (h : WrittenCloser k inner closing) :
    ∃ call after, closing = '\x7d' :: (call ++ after) ∧ '(' ∈ call ∧ '\x7d' ∉ call ∧
      '(' ∉ after := by
  cases h with
  | @outside b₁ b₂ args _ default tail h₁ h₂ hargs hdefault htail =>
      refine ⟨b₁ ++ ')' :: (b₂ ++ '(' :: args), default ++ ')' :: tail, by simp, by simp, ?_, ?_⟩
      · simp [not_mem_of_allBlank h₁ (by decide : isBlank '\x7d' = false),
          not_mem_of_allBlank h₂ (by decide : isBlank '\x7d' = false),
          not_mem_argument hargs (by decide : argument.contains '\x7d' = false)]
      · have htails := htail.not_mem (by decide : isBlank '(' = false) (by decide)
        cases hdefault with
        | absent => simpa using htails
        | present hb hinner hb' =>
            simp [htails, not_mem_of_allBlank hb (by decide : isBlank '(' = false),
              not_mem_of_allBlank hinner (by decide : isBlank '(' = false),
              not_mem_of_allBlank hb' (by decide : isBlank '(' = false)]
  | @inside b₁ b₂ name b₃ b₄ tail h₁ h₂ hname h₃ h₄ htail =>
      refine ⟨_, [], by rw [List.append_nil], by simp, ?_, by simp⟩
      have hbrace : isBlank '\x7d' = false := by decide
      simp [not_mem_of_allBlank h₁ hbrace, not_mem_of_allBlank h₂ hbrace,
        not_mem_of_allBlank h₃ hbrace, not_mem_of_allBlank h₄ hbrace,
        not_mem_name hname (by decide : isIdent '\x7d' = false), htail.not_mem hbrace (by decide)]

/-- No end of a wrapper holds another one after its first character. -/
theorem WrittenCloser.eq_nil_of_append {k' : Closer} {inner' closing' front stop : List Char}
    (h : WrittenCloser k inner closing) (h' : WrittenCloser k' inner' closing')
    (hstop : stop = [] ∨ stop = ['\n']) (heq : closing ++ stop = front ++ closing') :
    front = [] := by
  obtain ⟨call, after, rfl, -, hbrace, hparen⟩ := h.exists_call
  obtain ⟨call', after', rfl, hparen', -, -⟩ := h'.exists_call
  cases front with
  | nil => rfl
  | cons y front =>
      rw [List.cons_append, List.cons_append, List.append_assoc] at heq
      obtain ⟨-, heq⟩ := List.cons.inj heq
      have hafter : '(' ∉ after ++ stop := by
        rcases hstop with rfl | rfl
        · simpa using hparen
        · simpa using hparen
      rcases List.append_eq_append_iff.mp heq with ⟨u, -, hu⟩ | ⟨u, rfl, hu⟩
      · refine absurd ?_ hafter
        rw [hu]
        simp [hparen']
      · cases u with
        | nil =>
            refine absurd ?_ hafter
            rw [← List.nil_append (after ++ stop), ← hu]
            simp [hparen']
        | cons z u =>
            obtain rfl : '\x7d' = z := (List.cons.inj hu).1
            simp at hbrace

/-- Two texts that end in the same way end so after the last occurrence of a character. -/
theorem eq_of_append_of_last {a a' q q' : List Char} {x : Char} (hq : x ∉ q) (hq' : x ∉ q')
    (h : a ++ x :: q = a' ++ x :: q') : a = a' ∧ q = q' := by
  have hbefore : ∀ {t : List Char}, x ∉ t → ∀ y ∈ t.reverse, (y != x) = true := by
    intro t ht y hy
    rw [bne_iff_ne]
    rintro rfl
    exact ht (List.mem_reverse.mp hy)
  have hreverse : q.reverse ++ x :: a.reverse = q'.reverse ++ x :: a'.reverse := by
    simpa using congrArg List.reverse h
  obtain ⟨hlast, -, hfirst⟩ :=
    Statement.eq_of_append_of_ends (hbefore hq) (hbefore hq') (by simp) (by simp) hreverse
  exact ⟨List.reverse_inj.mp hfirst, List.reverse_inj.mp hlast⟩

theorem not_mem_stop {stop : List Char} (hstop : stop = [] ∨ stop = ['\n']) {x : Char}
    (hx : x ≠ '\n') : x ∉ stop := by
  rcases hstop with rfl | rfl
  · simp
  · simpa using hx

/-- Before its last parenthesis, a call that is made outside ends with its default, its argument or
its first parenthesis. -/
theorem WrittenCloser.exists_outside (h : WrittenCloser .outside inner closing) :
    ∃ b₁ b₂ args default tail, AllBlank b₁ ∧ AllBlank b₂ ∧
      (∀ x ∈ args, argument.contains x = true) ∧
      WrittenDefault inner default ∧ ')' ∉ tail ∧
      closing = ('\x7d' :: (b₁ ++ ')' :: (b₂ ++ '(' :: (args ++ default)))) ++ ')' :: tail := by
  cases h with
  | @outside b₁ b₂ args _ default tail h₁ h₂ hargs hdefault htail =>
      exact ⟨b₁, b₂, args, default, tail, h₁, h₂, hargs, hdefault,
        htail.not_mem (by decide) (by decide), by simp⟩

theorem WrittenDefault.not_mem (h : WrittenDefault inner default) : ')' ∉ default := by
  cases h with
  | absent => simp
  | present hb hinner hb' =>
      have hparen : isBlank ')' = false := by decide
      simp [not_mem_of_allBlank hb hparen, not_mem_of_allBlank hinner hparen,
        not_mem_of_allBlank hb' hparen]

/-- A call that is made inside is not read as one that is made outside. -/
theorem WrittenCloser.not_outside {front front' stop closing' : List Char}
    (h : WrittenCloser .inside inner closing) (h' : WrittenCloser .outside [] closing')
    (hstop : stop = [] ∨ stop = ['\n']) (heq : front' ++ (closing' ++ stop) = front ++ closing) :
    False := by
  obtain ⟨c₁, c₂, args, default, tail', -, hc₂, hargs, hdefault, htail', rfl⟩ := h'.exists_outside
  cases h with
  | @inside b₁ b₂ name b₃ b₄ tail h₁ h₂ hname h₃ h₄ htail =>
      have hends : (front' ++ ('\x7d' :: (c₁ ++ ')' :: (c₂ ++ '(' :: (args ++ default))))) ++
          ')' :: (tail' ++ stop) =
          (front ++ ('\x7d' :: (b₁ ++ '(' :: (b₂ ++ (name ++ (b₃ ++ ')' :: b₄)))))) ++
            ')' :: tail := by simpa using heq
      have hafter : ')' ∉ tail' ++ stop := by simp [htail', not_mem_stop hstop]
      obtain ⟨hbefore, -⟩ :=
        eq_of_append_of_last hafter (htail.not_mem (by decide) (by decide)) hends
      -- the parenthesis before is followed by the argument on one side and by blanks on the other
      have hcalls : (front' ++ ('\x7d' :: c₁)) ++ ')' :: (c₂ ++ '(' :: (args ++ default)) =
          (front ++ ('\x7d' :: (b₁ ++ '(' :: (b₂ ++ (name ++ b₃))))) ++ ')' :: b₄ := by
            simpa using hbefore
      have hparen : isBlank ')' = false := by decide
      obtain ⟨-, hblank⟩ := eq_of_append_of_last
        (by simp [not_mem_of_allBlank hc₂ hparen, hdefault.not_mem,
          not_mem_argument hargs (by decide : argument.contains ')' = false)])
        (not_mem_of_allBlank h₄ hparen) hcalls
      exact not_mem_of_allBlank h₄ (by decide : isBlank '(' = false) (by rw [← hblank]; simp)

/-- A default with blanks between its braces is not read. -/
theorem WrittenCloser.not_spaced {front front' stop closing' : List Char}
    (h : WrittenCloser .outside inner closing) (hinner : inner ≠ [])
    (h' : WrittenCloser .outside [] closing') (hstop : stop = [] ∨ stop = ['\n'])
    (heq : front' ++ (closing' ++ stop) = front ++ closing) : False := by
  obtain ⟨c₁, c₂, args', default', tail', hc₁, hc₂, hargs', hdefault', htail', rfl⟩ :=
    h'.exists_outside
  obtain ⟨b₁, b₂, args, default, tail, -, -, -, hdefault, htail, rfl⟩ := h.exists_outside
  have hends : (front' ++ ('\x7d' :: (c₁ ++ ')' :: (c₂ ++ '(' :: (args' ++ default'))))) ++
      ')' :: (tail' ++ stop) =
      (front ++ ('\x7d' :: (b₁ ++ ')' :: (b₂ ++ '(' :: (args ++ default))))) ++ ')' :: tail := by
        simpa using heq
  have hafter : ')' ∉ tail' ++ stop := by simp [htail', not_mem_stop hstop]
  obtain ⟨hbefore, -⟩ := eq_of_append_of_last hafter htail hends
  cases hdefault with
  | absent => exact hinner rfl
  | @present b _ b' hb hspace hb' =>
      have hbrace : isBlank '\x7d' = false := by decide
      have hopen : isBlank '\x7b' = false := by decide
      cases hdefault' with
      | absent =>
          -- the last brace is the first character on one side and comes before blanks on the other
          have hbraces : front' ++ '\x7d' :: (c₁ ++ ')' :: (c₂ ++ '(' :: args')) =
              (front ++ ('\x7d' :: (b₁ ++ ')' ::
              (b₂ ++ '(' :: (args ++ '|' :: '|' :: (b ++ '\x7b' :: inner)))))) ++ '\x7d' :: b' := by
                simpa using hbefore
          obtain ⟨-, hblank⟩ := eq_of_append_of_last
            (by simp [not_mem_of_allBlank hc₁ hbrace, not_mem_of_allBlank hc₂ hbrace,
              not_mem_argument hargs' (by decide : argument.contains '\x7d' = false)])
            (not_mem_of_allBlank hb' hbrace) hbraces
          exact not_mem_of_allBlank hb' (by decide : isBlank ')' = false) (by rw [← hblank]; simp)
      | @present e _ e' he _ he' =>
          have hbraces : (front' ++ ('\x7d' :: (c₁ ++ ')' :: (c₂ ++ '(' :: (args' ++ '|' :: '|' ::
              (e ++ ['\x7b'])))))) ++ '\x7d' :: e' = (front ++ ('\x7d' :: (b₁ ++ ')' ::
              (b₂ ++ '(' :: (args ++ '|' :: '|' :: (b ++ '\x7b' :: inner)))))) ++ '\x7d' :: b' := by
                simpa using hbefore
          obtain ⟨hbefore, -⟩ :=
            eq_of_append_of_last (not_mem_of_allBlank he' hbrace) (not_mem_of_allBlank hb' hbrace)
            hbraces
          have hopens :
              (front' ++ ('\x7d' :: (c₁ ++ ')' :: (c₂ ++ '(' :: (args' ++ '|' :: '|' :: e))))) ++
              '\x7b' :: [] =
                (front ++ ('\x7d' :: (b₁ ++ ')' :: (b₂ ++ '(' :: (args ++ '|' :: '|' :: b))))) ++
                '\x7b' :: inner := by
            simpa using hbefore
          obtain ⟨-, hnil⟩ :=
            eq_of_append_of_last (by simp) (not_mem_of_allBlank hspace hopen) hopens
          exact hinner hnil.symm

end Shape

section Detection

variable {k : Closer} {inner closing lead opener middle : List Char}

/-- The text without its blanks. -/
def solid (s : List Char) : List Char := s.filter fun x => !isBlank x

theorem solid_append (s t : List Char) : solid (s ++ t) = solid s ++ solid t :=
  List.filter_append ..

theorem solid_of_allBlank {b : List Char} (hb : AllBlank b) : solid b = [] := by
  rw [solid, List.filter_eq_nil_iff]
  intro x hx
  simp [hb x hx]

theorem solid_of_name {name : List Char} (hname : ∀ x ∈ name, isIdent x = true) :
    solid name = name := by
  rw [solid, List.filter_eq_self]
  intro x hx
  simp [isBlank_of_isIdent (hname x hx)]

theorem solid_cons {x : Char} (hx : isBlank x = false) (s : List Char) :
    solid (x :: s) = x :: solid s :=
  List.filter_cons_of_pos (by simp [hx])

theorem WrittenTail.solid {tail : List Char} (h : WrittenTail tail) : WrittenTail (solid tail) := by
  cases h with
  | intro hb hstop hb' =>
      rw [solid_append, solid_append, solid_of_allBlank hb, solid_of_allBlank hb']
      rcases hstop with rfl | rfl
      · exact .intro allBlank_nil (.inl rfl) allBlank_nil
      · exact .intro allBlank_nil (.inr rfl) allBlank_nil

theorem WrittenDefault.solid {default : List Char} (h : WrittenDefault inner default) :
    WrittenDefault [] (solid default) := by
  cases h with
  | absent => exact .absent
  | present hb hinner hb' =>
      simp only [solid_append, solid_of_allBlank hb, solid_of_allBlank hinner,
        solid_of_allBlank hb', solid_cons (by decide : isBlank '|' = false),
        solid_cons (by decide : isBlank '\x7b' = false),
        solid_cons (by decide : isBlank '\x7d' = false)]
      exact .present allBlank_nil allBlank_nil allBlank_nil

/-- Without its blanks, the end of a wrapper is the end of a wrapper. -/
theorem WrittenCloser.solid (h : WrittenCloser k inner closing) :
    WrittenCloser k [] (solid closing) := by
  have hbrace : isBlank '\x7d' = false := by decide
  have hopen : isBlank '(' = false := by decide
  have hclose : isBlank ')' = false := by decide
  cases h with
  | @outside b₁ b₂ args _ default tail h₁ h₂ hargs hdefault htail =>
      simp only [solid_append, solid_of_allBlank h₁, solid_of_allBlank h₂, solid_cons hbrace,
        solid_cons hopen, solid_cons hclose]
      have hall : ∀ x ∈ Rule.solid args, argument.contains x = true :=
        fun x hx => hargs x (List.mem_filter.mp hx).1
      exact .outside allBlank_nil allBlank_nil hall hdefault.solid htail.solid
  | @inside b₁ b₂ name b₃ b₄ tail h₁ h₂ hname h₃ h₄ htail =>
      simp only [solid_append, solid_of_allBlank h₁, solid_of_allBlank h₂, solid_of_allBlank h₃,
        solid_of_allBlank h₄, solid_of_name hname, solid_cons hbrace, solid_cons hopen,
        solid_cons hclose]
      exact .inside allBlank_nil allBlank_nil hname allBlank_nil allBlank_nil htail.solid

/-- Without its blanks, the head of a wrapper is found at the start. -/
theorem bareOpener_matchStart (h : WrittenOpener opener) (rest : List Char) :
    (bareOpener.matchStart (solid opener ++ rest)).isNone = false := by
  cases h with
  | @intro b₁ b₂ b₃ name b₄ b₅ h₁ h₂ h₃ hname h₄ h₅ =>
      have hword : solid "function".toList = "function".toList := by decide
      have htext :
          solid ('(' :: (b₁ ++ ("function".toList ++ (b₂ ++ '(' :: (b₃ ++ (name ++ (b₄ ++ ')' ::
          (b₅ ++ ['\x7b'])))))))) ++ rest = "(function(".toList ++
            (name ++ (")\x7b".toList ++ rest)) := by
        simp only [solid_append, solid_of_allBlank h₁, solid_of_allBlank h₂, solid_of_allBlank h₃,
          solid_of_allBlank h₄, solid_of_allBlank h₅, solid_of_name hname, hword,
          solid_cons (by decide : isBlank '(' = false),
          solid_cons (by decide : isBlank ')' = false),
          solid_cons (by decide : isBlank '\x7b' = false), solid_of_allBlank allBlank_nil]
        simp
      have hhead : ∀ x ∈ (")\x7b".toList ++ rest).head?, isIdent x = false := by
        have hparen : isIdent ')' = false := by decide
        simpa using hparen
      have hconsumes := (consumes_word "(function(").seq
        ((consumes_parameter hname hhead).seq (consumes_word ")\x7b"))
      rw [htext]
      obtain ⟨d, hd, -⟩ := hconsumes (Cursor.start _).fresh rfl
      have htakes : bareOpener.Takes (Cursor.start _).fresh d := (takes_anchor rfl).seq hd
      rw [matchStart, htakes.matchAt]
      rfl

theorem occursIn_of_writtenCloser {front : List Char} (h : WrittenCloser k [] closing) :
    k.pattern.occursIn (front ++ closing) = true := by
  have hafter : ((Cursor.start (front ++ closing)).beyond front).after = closing :=
    Cursor.after_beyond rfl
  obtain ⟨d, hd, -⟩ :=
    consumes_closer h ((Cursor.start (front ++ closing)).beyond front).fresh hafter
  rw [occursIn_iff]
  exact ⟨front, closing, rfl, matchAt_ne_none (List.mem_of_mem_head? hd)⟩

/-- A script with a wrapper is found to have one, and the way in which it ends is found out. -/
theorem closerOf_eq (hlead : AllBlank lead) (hopener : WrittenOpener opener)
    (hcloser : WrittenCloser k inner closing) :
    closerOf (lead ++ (opener ++ (middle ++ closing))) = .ok (some k) := by
  have hbare : gap.remove (lead ++ (opener ++ (middle ++ closing))) =
      (solid opener ++ solid middle) ++ solid closing := by
    rw [remove_gap, ← solid, solid_append, solid_append, solid_append, solid_of_allBlank hlead]
    simp
  have hopens :
      (bareOpener.matchStart ((solid opener ++ solid middle) ++ solid closing)).isNone = false := by
    rw [List.append_assoc]
    exact bareOpener_matchStart hopener _
  have hcloses : k.pattern.occursIn ((solid opener ++ solid middle) ++ solid closing) = true :=
    occursIn_of_writtenCloser hcloser.solid
  rw [closerOf]
  simp only [hbare, hopens]
  cases k with
  | outside =>
      rw [if_neg (by simp), if_pos hcloses]
      rfl
  | inside =>
      have hother : ¬Closer.outside.pattern.occursIn
          ((solid opener ++ solid middle) ++ solid closing) = true := by
        rw [occursIn_iff]
        rintro ⟨a, b, hab, hmatch⟩
        obtain ⟨m, hm⟩ := Option.ne_none_iff_exists'.mp hmatch
        obtain ⟨closing', stop, hwritten, hafter, hstop⟩ := exists_writtenCloser_of_matchAt hm
        rw [Cursor.after_beyond (c := Cursor.start _) hab] at hafter
        exact hcloser.solid.not_outside hwritten hstop (by rw [← hafter, ← hab])
      rw [if_neg (by simp), if_neg hother, if_pos hcloses]
      rfl

end Detection

end Rule

end ScriptModules
