import ScriptModules.Path.Basic
import ScriptModules.Proofs.Text.Pieces
import Mathlib.Data.List.TakeWhile

/-!
# Paths as lists of components

What a path denotes is a list of components. Joining paths appends their lists, a path is its parent
and its file name, and removing dots works from left to right. So the components that lead from one
directory to another, taken from the first, end at the second.
-/

namespace ScriptModules.Path

open Text

/-- A component that stays when dots are removed. -/
structure Settled (c : String) : Prop where
  ne_empty : c ≠ ""
  ne_dot : c ≠ "."
  ne_dots : c ≠ ".."

section Dots

variable {rooted : Bool} {kept cs : List String}

/-- Dots are removed from left to right. -/
theorem resolveDots_append (rooted : Bool) (kept cs ds : List String) :
    resolveDots rooted kept (cs ++ ds) =
      resolveDots rooted (resolveDots rooted kept cs).reverse ds := by
  fun_induction resolveDots rooted kept cs <;> simp_all [resolveDots]

theorem resolveDots_cons_empty (rooted : Bool) (kept cs : List String) :
    resolveDots rooted kept ("" :: cs) = resolveDots rooted kept cs := by
  simp [resolveDots]

theorem resolveDots_cons_dot (rooted : Bool) (kept cs : List String) :
    resolveDots rooted kept ("." :: cs) = resolveDots rooted kept cs := by
  simp [resolveDots]

theorem resolveDots_cons_settled {c : String} (hc : Settled c) :
    resolveDots rooted kept (c :: cs) = resolveDots rooted (c :: kept) cs := by
  simp [resolveDots, hc.ne_empty, hc.ne_dot, hc.ne_dots]

/-- Settled components stay. -/
theorem resolveDots_of_settled (h : ∀ c ∈ cs, Settled c) :
    resolveDots rooted kept cs = kept.reverse ++ cs := by
  induction cs generalizing kept with
  | nil => simp [resolveDots]
  | cons c cs ih =>
      rw [resolveDots_cons_settled (h c (by simp)), ih fun d hd => h d (List.mem_cons_of_mem _ hd)]
      simp

/-- From the root on, only settled components are left. -/
theorem mem_resolveDots {c : String} (hkept : ∀ k ∈ kept, Settled k)
    (h : c ∈ resolveDots true kept cs) :
    Settled c ∧ (c ∈ kept ∨ c ∈ cs) := by
  fun_induction resolveDots true kept cs with
  | case1 kept =>
      have hc := List.mem_reverse.mp h
      exact ⟨hkept c hc, .inl hc⟩
  | case2 kept d rest hd ih =>
      obtain ⟨hsettled, hmem⟩ := ih hkept h
      exact ⟨hsettled, hmem.imp_right (List.mem_cons_of_mem _)⟩
  | case3 d rest hd hdots hrooted ih =>
      obtain ⟨hsettled, hmem⟩ := ih hkept h
      exact ⟨hsettled, hmem.imp_right (List.mem_cons_of_mem _)⟩
  | case4 d rest hd hdots hrooted => simp at hrooted
  | case5 d rest hd hdots k others hk ih =>
      exact absurd (by simpa using hk) (hkept k (by simp)).ne_dots
  | case6 d rest hd hdots k others hk ih =>
      obtain ⟨hsettled, hmem⟩ := ih (fun k hk => hkept k (List.mem_cons_of_mem _ hk)) h
      exact ⟨hsettled, hmem.imp (List.mem_cons_of_mem _) (List.mem_cons_of_mem _)⟩
  | case7 kept d rest hd hdots ih =>
      have hsettled : Settled d := by
        refine ⟨?_, ?_, ?_⟩ <;> rintro rfl <;> simp_all
      have hkept' : ∀ k ∈ d :: kept, Settled k := by
        intro k hk
        rcases List.mem_cons.mp hk with rfl | hk
        · exact hsettled
        · exact hkept k hk
      obtain ⟨hc, hmem⟩ := ih hkept' h
      refine ⟨hc, ?_⟩
      rcases hmem with hmem | hmem
      · rcases List.mem_cons.mp hmem with rfl | hmem
        · exact .inr (by simp)
        · exact .inl hmem
      · exact .inr (List.mem_cons_of_mem _ hmem)

/-- Two dots take the latest settled component away. -/
theorem resolveDots_up (hkept : ∀ k ∈ kept, Settled k) (n : Nat) :
    resolveDots true kept (List.replicate n ".." ++ cs) = resolveDots true (kept.drop n) cs := by
  induction n generalizing kept with
  | zero => simp
  | succ n ih =>
      rw [List.replicate_succ, List.cons_append]
      cases kept with
      | nil =>
          have hup : ∀ ds, resolveDots true [] (".." :: ds) = resolveDots true [] ds := fun ds => by
            simp [resolveDots]
          rw [hup, ih (by simp)]
          simp
      | cons k others =>
          have hup : ∀ ds, resolveDots true (k :: others) (".." :: ds) =
              resolveDots true others ds := fun ds => by
            simp [resolveDots, (hkept k (by simp)).ne_dots]
          rw [hup, ih fun k hk => hkept k (List.mem_cons_of_mem _ hk), List.drop_succ_cons]

theorem take_commonLength (start path : List String) :
    start.take (commonLength start path) = path.take (commonLength start path) := by
  fun_induction commonLength start path <;> simp_all

theorem commonLength_le (start path : List String) : commonLength start path ≤ start.length := by
  fun_induction commonLength start path <;> simp_all

/-- The components that lead from one directory to another end there. -/
theorem resolveDots_relativeComponents {start path : List String} (hstart : ∀ c ∈ start, Settled c)
    (hpath : ∀ c ∈ path, Settled c) :
    resolveDots true start.reverse (relativeComponents start path) = path := by
  have hreverse : ∀ k ∈ start.reverse, Settled k := fun k hk => hstart k (List.mem_reverse.mp hk)
  have hdrop : ∀ c ∈ path.drop (commonLength start path), Settled c := fun c hc =>
    hpath c (List.mem_of_mem_drop hc)
  calc resolveDots true start.reverse (relativeComponents start path)
      = resolveDots true (start.reverse.drop (start.length - commonLength start path))
          (path.drop (commonLength start path)) := resolveDots_up hreverse _
    _ = (start.reverse.drop (start.length - commonLength start path)).reverse ++
          path.drop (commonLength start path) := resolveDots_of_settled hdrop
    _ = start.take (commonLength start path) ++ path.drop (commonLength start path) := by
          rw [List.drop_reverse, List.reverse_reverse,
            Nat.sub_sub_self (commonLength_le start path)]
    _ = path := by rw [take_commonLength, List.take_append_drop]

/-- Empty components do not count. -/
theorem resolveDots_parts (rooted : Bool) (kept : List String) (p : String) :
    resolveDots rooted kept (parts p) = resolveDots rooted kept (components p) := by
  suffices h : ∀ cs kept, resolveDots rooted kept (cs.filter (!·.isEmpty)) =
      resolveDots rooted kept cs from
    h _ _
  intro cs
  induction cs with
  | nil => intro kept; rfl
  | cons c cs ih =>
      intro kept
      by_cases hc : c = ""
      · subst hc
        rw [List.filter_cons_of_neg (by decide), ih, resolveDots_cons_empty]
      · have hsingle : ∀ ds, resolveDots rooted kept (c :: ds) =
            resolveDots rooted (resolveDots rooted kept [c]).reverse ds := fun ds =>
          resolveDots_append rooted kept [c] ds
        rw [List.filter_cons_of_pos (by simpa using hc), hsingle, hsingle cs, ih]

end Dots

section Parts

variable {a b p : String} {cs : List String}

/-- The parts of a path given by its characters. -/
def partsOf (l : List Char) : List String := ((splitOn '/' l).map String.ofList).filter (!·.isEmpty)

theorem parts_eq_partsOf (p : String) : parts p = partsOf p.toList := rfl

@[simp] theorem partsOf_nil : partsOf [] = [] := rfl

theorem partsOf_append (a b : List Char) : partsOf (a ++ '/' :: b) = partsOf a ++ partsOf b := by
  rw [partsOf, splitOn_append, List.map_append, List.filter_append, partsOf, partsOf]

theorem partsOf_cons_slash (l : List Char) : partsOf ('/' :: l) = partsOf l := partsOf_append [] l

/-- Slashes at the end do not count. -/
theorem partsOf_append_slashes (a : List Char) {slashes : List Char} (h : ∀ x ∈ slashes, x = '/') :
    partsOf (a ++ slashes) = partsOf a := by
  induction slashes generalizing a with
  | nil => rw [List.append_nil]
  | cons x slashes ih =>
      obtain rfl := h x (by simp)
      have hrest := ih [] fun y hy => h y (List.mem_cons_of_mem _ hy)
      rw [partsOf_append, ← List.nil_append slashes, hrest, partsOf_nil, List.append_nil]

theorem partsOf_of_no_slash {l : List Char} (hne : l ≠ []) (h : '/' ∉ l) :
    partsOf l = [String.ofList l] := by
  rw [partsOf, splitOn_of_not_mem h]
  simp [hne]

/-- The parts of a path are not empty, hold no slash, and hold characters of the path. -/
theorem mem_parts {c : String} (h : c ∈ parts p) :
    c ≠ "" ∧ '/' ∉ c.toList ∧ ∀ x ∈ c.toList, x ∈ p.toList := by
  obtain ⟨hc, hne⟩ := List.mem_filter.mp h
  obtain ⟨l, hl, rfl⟩ := List.mem_map.mp hc
  refine ⟨by simpa using hne, ?_, ?_⟩
  · intro hslash
    exact (mem_of_mem_splitOn hl (by simpa using hslash)).2 rfl
  · intro x hx
    exact (mem_of_mem_splitOn hl (by simpa using hx)).1

theorem toList_joinComponents_cons (c d : String) (cs : List String) :
    (joinComponents (c :: d :: cs)).toList = c.toList ++
      '/' :: (joinComponents (d :: cs)).toList := by
  simp [joinComponents]

/-- Components that hold no slash are the parts of the path that they form. -/
theorem parts_joinComponents (h : ∀ c ∈ cs, c ≠ "" ∧ '/' ∉ c.toList) :
    parts (joinComponents cs) = cs := by
  induction cs with
  | nil => rfl
  | cons c cs ih =>
      obtain ⟨hne, hslash⟩ := h c (by simp)
      have hc : partsOf c.toList = [c] := by
        rw [partsOf_of_no_slash (by simpa using hne) hslash, String.ofList_toList]
      cases cs with
      | nil => simpa [joinComponents, parts_eq_partsOf] using hc
      | cons d cs =>
          have hrest := ih fun e he => h e (List.mem_cons_of_mem _ he)
          rw [parts_eq_partsOf, toList_joinComponents_cons, partsOf_append, hc,
            ← parts_eq_partsOf, hrest]
          rfl

/-- Joining paths appends their parts. -/
theorem parts_join (hb : isAbsolute b = false) : parts (join a b) = parts a ++ parts b := by
  rw [join, if_neg (by simp [hb])]
  split
  · rename_i ha
    rw [parts_eq_partsOf, String.toList_append, parts_eq_partsOf a, parts_eq_partsOf b]
    rcases Bool.or_eq_true_iff.mp ha with ha | ha
    · simp [String.isEmpty_iff.mp ha]
    · obtain ⟨l, hl⟩ := List.getLast?_eq_some_iff.mp (beq_iff_eq.mp ha)
      rw [hl, List.append_assoc, List.singleton_append, partsOf_append, partsOf_append, partsOf_nil,
        List.append_nil]
  · have htext : (a ++ "/" ++ b).toList = a.toList ++ '/' :: b.toList := by simp
    rw [parts_eq_partsOf, htext, partsOf_append, parts_eq_partsOf a, parts_eq_partsOf b]

theorem isAbsolute_join (hb : isAbsolute b = false) : isAbsolute (join a b) = isAbsolute a := by
  rw [join, if_neg (by simp [hb])]
  by_cases ha : a = ""
  · subst ha
    have hempty : isAbsolute "" = false := rfl
    simp [hb, hempty]
  · obtain ⟨x, l, hl⟩ := List.exists_cons_of_ne_nil (by simpa using ha : a.toList ≠ [])
    split <;> simp [isAbsolute, hl]

/-- Only slashes are dropped, and never the first character. -/
theorem dropEndSlashes_spec (l : List Char) :
    (∃ slashes, (∀ x ∈ slashes, x = '/') ∧ l = dropEndSlashes l ++ slashes) ∧
      (dropEndSlashes l).head? = l.head? := by
  rw [dropEndSlashes]
  split
  · exact ⟨⟨[], by simp, by simp⟩, rfl⟩
  · rename_i hall
    have hsplit : l = (l.reverse.dropWhile (· == '/')).reverse ++
        (l.reverse.takeWhile (· == '/')).reverse := by
      rw [← List.reverse_append, List.takeWhile_append_dropWhile, List.reverse_reverse]
    have hslash : ∀ x ∈ (l.reverse.takeWhile (· == '/')).reverse, x = '/' := by
      intro x hx
      simpa using List.mem_takeWhile_imp (List.mem_reverse.mp hx)
    refine ⟨⟨_, hslash, hsplit⟩, ?_⟩
    cases hkept : (l.reverse.dropWhile (· == '/')).reverse with
    | cons x kept =>
        rw [hkept] at hsplit
        rw [hsplit]
        rfl
    | nil =>
        rw [hkept, List.nil_append] at hsplit
        refine absurd (List.all_eq_true.mpr fun x hx => ?_) hall
        simpa using hslash x (hsplit ▸ hx)

/-- A path without a slash is a file name; any other is a directory, a slash and a file name. -/
theorem fileName_spec (p : String) :
    '/' ∉ (fileName p).toList ∧ ((parent p = "" ∧ fileName p = p) ∨
      ∃ l, p.toList = l ++ '/' :: (fileName p).toList ∧
        parent p = String.ofList (dropEndSlashes (l ++ ['/']))) := by
  have hname : (fileName p).toList = (p.toList.reverse.takeWhile (· != '/')).reverse :=
    String.toList_ofList
  have hsplit :
      p.toList = (p.toList.reverse.dropWhile (· != '/')).reverse ++ (fileName p).toList := by
    rw [hname, ← List.reverse_append, List.takeWhile_append_dropWhile, List.reverse_reverse]
  constructor
  · intro hslash
    rw [hname, List.mem_reverse] at hslash
    simpa using List.mem_takeWhile_imp hslash
  · cases hdir : p.toList.reverse.dropWhile (· != '/') with
    | nil =>
        rw [hdir] at hsplit
        refine .inl ⟨by rw [parent, hdir]; rfl, ?_⟩
        rw [← String.toList_inj, hsplit, List.reverse_nil, List.nil_append]
    | cons x back =>
        have hx := List.head?_dropWhile_not (· != '/') p.toList.reverse
        obtain rfl : x = '/' := by simpa [hdir] using hx
        refine .inr ⟨back.reverse, ?_, ?_⟩
        · rw [hdir] at hsplit
          rw [hsplit]
          simp
        · rw [parent, hdir, List.reverse_cons]

/-- A path has the parts of its parent and then its file name. -/
theorem parts_parent (p : String) : parts p = parts (parent p) ++ parts (fileName p) := by
  rcases (fileName_spec p).2 with ⟨hparent, hname⟩ | ⟨l, hl, hparent⟩
  · rw [hparent, hname]
    rfl
  · obtain ⟨⟨slashes, hslashes, hsplit⟩, -⟩ := dropEndSlashes_spec (l ++ ['/'])
    have hdir : parts (parent p) = partsOf l := by
      rw [hparent, parts_eq_partsOf, String.toList_ofList,
        ← partsOf_append_slashes _ hslashes, ← hsplit]
      exact partsOf_append_slashes l (by simp)
    rw [hdir, parts_eq_partsOf, hl, partsOf_append, ← parts_eq_partsOf]

theorem isAbsolute_of_not_mem (h : '/' ∉ p.toList) : isAbsolute p = false := by
  rw [isAbsolute]
  cases hp : p.toList with
  | nil => rfl
  | cons x l =>
      have hx : x ≠ '/' := by
        rintro rfl
        exact h (by simp [hp])
      simpa using hx

theorem isAbsolute_fileName (p : String) : isAbsolute (fileName p) = false :=
  isAbsolute_of_not_mem (fileName_spec p).1

theorem isAbsolute_parent (p : String) : isAbsolute (parent p) = isAbsolute p := by
  obtain ⟨hname, hcases⟩ := fileName_spec p
  rcases hcases with ⟨hparent, hp⟩ | ⟨l, hl, hparent⟩
  · rw [hp] at hname
    rw [hparent, isAbsolute_of_not_mem hname]
    rfl
  · rw [hparent, isAbsolute, isAbsolute, String.toList_ofList, (dropEndSlashes_spec _).2, hl]
    cases l <;> rfl

end Parts

section Absolute

variable {cwd a b p : String}

/-- The parts of a path seen from the root, with the dots that are in it. -/
def absoluteParts (cwd p : String) : List String :=
  if isAbsolute p then parts p else parts cwd ++ parts p

theorem absoluteParts_join (hb : isAbsolute b = false) :
    absoluteParts cwd (join a b) = absoluteParts cwd a ++ parts b := by
  rw [absoluteParts, absoluteParts, isAbsolute_join hb, parts_join hb]
  split
  · rfl
  · rw [List.append_assoc]

theorem absoluteParts_parent (cwd p : String) :
    absoluteParts cwd p = absoluteParts cwd (parent p) ++ parts (fileName p) := by
  rw [absoluteParts, absoluteParts, isAbsolute_parent, parts_parent p]
  split
  · rfl
  · rw [List.append_assoc]

/-- A part of a path seen from the root is one of the path, or one of the current directory if the
path does not start at the root. -/
theorem mem_absoluteParts {c : String} (h : c ∈ absoluteParts cwd p) :
    '/' ∉ c.toList ∧ ∀ x ∈ c.toList, (isAbsolute p = false ∧ x ∈ cwd.toList) ∨ x ∈ p.toList := by
  rw [absoluteParts] at h
  split at h
  · exact ⟨(mem_parts h).2.1, fun x hx => .inr ((mem_parts h).2.2 x hx)⟩
  · rename_i hrelative
    rcases List.mem_append.mp h with h | h
    · exact ⟨(mem_parts h).2.1, fun x hx => .inl ⟨by simpa using hrelative, (mem_parts h).2.2 x hx⟩⟩
    · exact ⟨(mem_parts h).2.1, fun x hx => .inr ((mem_parts h).2.2 x hx)⟩

/-- The slashes with which the absolute path starts. -/
def rootOf (cwd p : String) : String := if isAbsolute p then rootSlashes p else rootSlashes cwd

theorem rootSlashes_of_isAbsolute (h : isAbsolute p = true) :
    rootSlashes p = "/" ∨ rootSlashes p = "//" := by
  obtain ⟨l, hl⟩ : ∃ l, p.toList = '/' :: l := by
    cases hp : p.toList with
    | nil => simp [isAbsolute, hp] at h
    | cons x l => exact ⟨l, by simpa [isAbsolute, hp] using h⟩
  rw [rootSlashes, hl, List.takeWhile_cons_of_pos (by decide)]
  split
  · simp at *
  · exact .inr rfl
  · exact .inl rfl

theorem takeWhile_slash_of_not_isAbsolute (h : isAbsolute p = false) :
    p.toList.takeWhile (· == '/') = [] := by
  cases hp : p.toList with
  | nil => rfl
  | cons x l => simpa [isAbsolute, hp] using h

/-- The first slashes of a joined path are those of its first path. -/
theorem rootSlashes_join (ha : a ≠ "") (hb : isAbsolute b = false) :
    rootSlashes (join a b) = rootSlashes a := by
  suffices h : (join a b).toList.takeWhile (· == '/') = a.toList.takeWhile (· == '/') by
    rw [rootSlashes, h, rootSlashes]
  rw [join, if_neg (by simp [hb])]
  split
  · rw [String.toList_append]
    exact takeWhile_append_of_stop (.inl (takeWhile_slash_of_not_isAbsolute hb))
  · rename_i hlast
    have htext : (a ++ "/" ++ b).toList = a.toList ++ '/' :: b.toList := by simp
    obtain ⟨l, x, hl⟩ : ∃ l x, a.toList = l ++ [x] :=
      ⟨_, _, (List.dropLast_concat_getLast (by simpa using ha)).symm⟩
    have hx : x ≠ '/' := by
      rintro rfl
      simp [hl] at hlast
    rw [htext]
    exact takeWhile_append_of_stop (.inr ⟨x, by simp [hl], by simpa using hx⟩)

theorem rootSlashes_parent (h : isAbsolute p = true) : rootSlashes (parent p) = rootSlashes p := by
  rcases (fileName_spec p).2 with ⟨hparent, -⟩ | ⟨l, hl, hparent⟩
  · rw [← isAbsolute_parent, hparent] at h
    simp [isAbsolute] at h
  · suffices hslashes : (parent p).toList.takeWhile (· == '/') = p.toList.takeWhile (· == '/') by
      rw [rootSlashes, hslashes, rootSlashes]
    obtain ⟨⟨slashes, hslashes, hsplit⟩, -⟩ := dropEndSlashes_spec (l ++ ['/'])
    have htext : p.toList = (dropEndSlashes (l ++ ['/']) ++ slashes) ++ (fileName p).toList := by
      rw [← hsplit, hl]
      simp
    rw [hparent, String.toList_ofList]
    by_cases hall : (l ++ ['/']).all (· == '/') = true
    · have hsame : dropEndSlashes (l ++ ['/']) = l ++ ['/'] := if_pos hall
      have hfile := takeWhile_slash_of_not_isAbsolute (isAbsolute_fileName p)
      have hdir : p.toList = (l ++ ['/']) ++ (fileName p).toList := by
        rw [hl]
        simp
      rw [hdir, takeWhile_append_of_stop (.inl hfile), hsame]
    · have hstop : ∃ x ∈ dropEndSlashes (l ++ ['/']), (x == '/') = false := by
        by_contra hnone
        refine hall (List.all_eq_true.mpr fun x hx => ?_)
        rw [hsplit] at hx
        rcases List.mem_append.mp hx with hx | hx
        · by_contra hslash
          exact hnone ⟨x, hx, by simpa using hslash⟩
        · simpa using hslashes x hx
      rw [htext, List.append_assoc, takeWhile_append_of_stop (.inr hstop)]

theorem normalize_of_isAbsolute (h : isAbsolute p = true) :
    normalize p = rootSlashes p ++ joinComponents (resolveDots true [] (parts p)) := by
  have hroot : (rootSlashes p).isEmpty = false := by
    rcases rootSlashes_of_isAbsolute h with hroot | hroot <;> rw [hroot] <;> rfl
  rw [normalize, hroot, resolveDots_parts]
  simp only [Bool.not_false]
  rw [if_neg]
  intro hempty
  rw [String.isEmpty_iff, String.append_eq_empty_iff, ← String.isEmpty_iff] at hempty
  simp [hroot] at hempty

theorem absolute_eq_root_append (hcwd : isAbsolute cwd = true) (p : String) :
    absolute cwd p =
      rootOf cwd p ++ joinComponents (resolveDots true [] (absoluteParts cwd p)) := by
  have hne : cwd ≠ "" := by
    rintro rfl
    simp [isAbsolute] at hcwd
  rw [absolute, rootOf, absoluteParts]
  cases hp : isAbsolute p with
  | true => exact normalize_of_isAbsolute hp
  | false =>
      have hjoin : isAbsolute (join cwd p) = true := (isAbsolute_join hp).trans hcwd
      have hnormal := normalize_of_isAbsolute hjoin
      rw [parts_join hp, rootSlashes_join hne hp] at hnormal
      exact hnormal

theorem rootOf_eq (hcwd : isAbsolute cwd = true) (p : String) :
    rootOf cwd p = "/" ∨ rootOf cwd p = "//" := by
  rw [rootOf]
  cases hp : isAbsolute p with
  | true => exact rootSlashes_of_isAbsolute hp
  | false => exact rootSlashes_of_isAbsolute hcwd

/-- The components of an absolute path are what is left of its parts without dots. -/
theorem absoluteComponents_eq (hcwd : isAbsolute cwd = true) (p : String) :
    absoluteComponents cwd p = resolveDots true [] (absoluteParts cwd p) := by
  have hmem : ∀ c ∈ resolveDots true [] (absoluteParts cwd p), c ≠ "" ∧ '/' ∉ c.toList := by
    intro c hc
    obtain ⟨hsettled, hkept | hc⟩ := mem_resolveDots (by simp) hc
    · simp at hkept
    · exact ⟨hsettled.ne_empty, (mem_absoluteParts hc).1⟩
  have hroot : ∀ l, partsOf ((rootOf cwd p).toList ++ l) = partsOf l := by
    intro l
    rcases rootOf_eq hcwd p with h | h <;> simp [h, partsOf_cons_slash]
  rw [absoluteComponents, absolute_eq_root_append hcwd, parts_eq_partsOf, String.toList_append,
    hroot, ← parts_eq_partsOf, parts_joinComponents hmem]

theorem mem_absoluteComponents (hcwd : isAbsolute cwd = true) {c : String}
    (h : c ∈ absoluteComponents cwd p) :
    Settled c ∧ '/' ∉ c.toList ∧ ∀ x ∈ c.toList, (isAbsolute p = false ∧ x ∈ cwd.toList) ∨
      x ∈ p.toList := by
  rw [absoluteComponents_eq hcwd] at h
  obtain ⟨hsettled, hkept | hc⟩ := mem_resolveDots (by simp) h
  · simp at hkept
  · exact ⟨hsettled, mem_absoluteParts hc⟩

/-- A path is absolute at its own root. -/
theorem absolute_eq (hcwd : isAbsolute cwd = true) (p : String) :
    absolute cwd p = rootOf cwd p ++ joinComponents (absoluteComponents cwd p) := by
  rw [absoluteComponents_eq hcwd, absolute_eq_root_append hcwd]

end Absolute

end ScriptModules.Path
