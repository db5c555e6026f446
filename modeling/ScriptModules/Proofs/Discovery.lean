import ScriptModules.Discovery
import ScriptModules.Proofs.FileTree.WellFormed

/-!
# What is discovered

Discovery follows normalised paths only: an input from the root on, and below a directory the path
of the directory and one more name. In a well-formed tree without links such a path leads to the
entry that its components name. So the files at or below a path depend on the entries there alone,
and directories without files add nothing to them.
-/

namespace ScriptModules

namespace Path

/-- A path that is its root and then names with slashes between them. -/
structure Plain (path : String) (cs : List String) : Prop where
  root : path = "/" ++ joinComponents cs ∨ path = "//" ++ joinComponents cs
  names : ∀ c ∈ cs, IsName c

section Plain

variable {cwd path name : String} {cs : List String}

theorem plain_absolute (hcwd : isAbsolute cwd = true) (p : String) :
    Plain (absolute cwd p) (absoluteComponents cwd p) := by
  refine ⟨?_, fun c hc => ?_⟩
  · rw [absolute_eq hcwd]
    rcases rootOf_eq hcwd p with h | h
    · exact .inl (by rw [h])
    · exact .inr (by rw [h])
  · obtain ⟨hsettled, hslash, -⟩ := mem_absoluteComponents hcwd hc
    exact ⟨hsettled, hslash⟩

theorem components_of_not_mem {c : String} (h : '/' ∉ c.toList) : components c = [c] := by
  rw [components, Text.splitOn_of_not_mem h, List.map_singleton, String.ofList_toList]

theorem components_joinComponents (hne : cs ≠ []) (h : ∀ c ∈ cs, '/' ∉ c.toList) :
    components (joinComponents cs) = cs := by
  induction cs with
  | nil => exact absurd rfl hne
  | cons c cs ih =>
      have hc := components_of_not_mem (h c (by simp))
      cases cs with
      | nil => simpa [joinComponents] using hc
      | cons d cs =>
          have hrest := ih (by simp) fun e he => h e (List.mem_cons_of_mem _ he)
          rw [components] at hc hrest ⊢
          rw [toList_joinComponents_cons, Text.splitOn_append, List.map_append, hc, hrest]
          rfl

theorem joinComponents_append {ds : List String} (hcs : cs ≠ []) (hds : ds ≠ []) :
    joinComponents (cs ++ ds) = joinComponents cs ++ "/" ++ joinComponents ds := by
  obtain ⟨d, ds, rfl⟩ := List.exists_cons_of_ne_nil hds
  rw [← String.toList_inj]
  induction cs with
  | nil => exact absurd rfl hcs
  | cons c cs ih =>
      cases cs with
      | nil => simp [joinComponents]
      | cons e cs =>
          have hrest := ih (by simp)
          rw [List.cons_append] at hrest
          rw [List.cons_append, List.cons_append, toList_joinComponents_cons, hrest,
            String.toList_append, String.toList_append, String.toList_append, String.toList_append,
            toList_joinComponents_cons]
          simp

theorem joinComponents_concat (hne : cs ≠ []) (name : String) :
    joinComponents (cs ++ [name]) = joinComponents cs ++ "/" ++ name := by
  rw [joinComponents_append hne (by simp)]
  simp [joinComponents]

/-- Components with slashes between them do not end in a slash. -/
theorem getLast?_joinComponents (hne : cs ≠ []) (h : ∀ c ∈ cs, c ≠ "" ∧ '/' ∉ c.toList) :
    joinComponents cs ≠ "" ∧ (joinComponents cs).toList.getLast? ≠ some '/' := by
  obtain ⟨init, c, rfl⟩ : ∃ init c, cs = init ++ [c] :=
    ⟨_, _, (List.dropLast_append_getLast hne).symm⟩
  obtain ⟨hempty, hslash⟩ := h c (by simp)
  have hc : c.toList ≠ [] := by simpa using hempty
  obtain ⟨front, hfront⟩ : ∃ front, (joinComponents (init ++ [c])).toList = front ++ c.toList := by
    by_cases hinit : init = []
    · exact ⟨[], by simp [hinit, joinComponents]⟩
    · exact ⟨(joinComponents init).toList ++ ['/'], by rw [joinComponents_concat hinit]; simp⟩
  refine ⟨?_, ?_⟩
  · rw [ne_eq, ← String.toList_inj, hfront]
    simpa using fun _ => hempty
  · rw [hfront, List.getLast?_append_of_ne_nil _ hc]
    intro hlast
    exact hslash (List.mem_of_getLast? hlast)

theorem IsName.not_isAbsolute (h : IsName name) : isAbsolute name = false :=
  isAbsolute_of_not_mem h.2

/-- One more name after a root and names is one more of the names. -/
theorem join_joinComponents {root : String} (hroot : root.toList.getLast? = some '/')
    (hcs : ∀ c ∈ cs, IsName c) (hname : IsName name) :
    join (root ++ joinComponents cs) name = root ++ joinComponents (cs ++ [name]) := by
  rw [Path.join, if_neg (by simp [hname.not_isAbsolute])]
  by_cases hempty : cs = []
  · subst hempty
    rw [if_pos (by simp [joinComponents, hroot])]
    simp [joinComponents]
  · obtain ⟨hne, hend⟩ :=
      getLast?_joinComponents hempty fun c hc => ⟨(hcs c hc).1.ne_empty, (hcs c hc).2⟩
    rw [if_neg (by simp [hne, hend]), joinComponents_concat hempty]
    simp [String.append_assoc]

/-- One more name below a path is one more component. -/
theorem Plain.join (h : Plain path cs) (hname : IsName name) :
    Plain (join path name) (cs ++ [name]) := by
  refine ⟨h.root.imp ?_ ?_, fun c hc => ?_⟩
  · rintro rfl
    exact join_joinComponents rfl h.names hname
  · rintro rfl
    exact join_joinComponents rfl h.names hname
  · rcases List.mem_append.mp hc with hc | hc
    · exact h.names c hc
    · obtain rfl := List.mem_singleton.mp hc
      exact hname

theorem components_slash (p : String) : components ("/" ++ p) = "" :: components p := by
  have htext : ("/" ++ p).toList = [] ++ '/' :: p.toList := by simp
  rw [components, htext, Text.splitOn_append]
  rfl

/-- Up to empty components in front, the components of a plain path are its names. -/
theorem Plain.components_eq (h : Plain path cs) :
    isAbsolute path = true ∧ ∃ front, (∀ c ∈ front, c = "") ∧ components path = front ++ cs := by
  obtain ⟨front, hfront, hnames⟩ : ∃ front, (∀ c ∈ front, c = "") ∧
      components (joinComponents cs) = front ++ cs := by
    by_cases hcs : cs = []
    · exact ⟨[""], by simp, by rw [hcs]; rfl⟩
    · exact ⟨[], by simp, components_joinComponents hcs fun c hc => (h.names c hc).2⟩
  have hslash : components ("/" ++ joinComponents cs) = ("" :: front) ++ cs := by
    rw [components_slash, hnames, List.cons_append]
  rcases h.root with rfl | rfl
  · exact ⟨by simp [isAbsolute], "" :: front, by simpa using hfront, hslash⟩
  · have hdouble : "//" ++ joinComponents cs = "/" ++ ("/" ++ joinComponents cs) := by
      simp [← String.append_assoc]
    refine ⟨by simp [isAbsolute], "" :: "" :: front, by simpa using hfront, ?_⟩
    rw [hdouble, components_slash, hslash, List.cons_append]
    rfl

theorem Plain.absoluteComponents_eq (h : Plain path cs) (hcwd : isAbsolute cwd = true) :
    absoluteComponents cwd path = cs := by
  obtain ⟨habsolute, front, hfront, hcomponents⟩ := h.components_eq
  have hparts : parts path = cs := by
    have hempty : front.filter (!·.isEmpty) = [] := by
      rw [List.filter_eq_nil_iff]
      intro c hc
      simp [hfront c hc]
    have hfull : cs.filter (!·.isEmpty) = cs := by
      rw [List.filter_eq_self]
      intro c hc
      simpa using (h.names c hc).1.ne_empty
    rw [parts, hcomponents, List.filter_append, hempty, hfull, List.nil_append]
  rw [Path.absoluteComponents_eq hcwd, absoluteParts, if_pos habsolute, hparts]
  exact resolveDots_of_settled fun c hc => (h.names c hc).1

end Plain

end Path

namespace FileTree

section Plain

variable {t : FileTree} {followLast : Bool} {n : Nat} {cwd path : String}
  {cs dir : List String} {e : Entry}

theorem walk_append_empty {front : List String} (hfront : ∀ c ∈ front, c = "") :
    t.walk followLast n dir (front ++ cs) = t.walk followLast n dir cs := by
  induction front with
  | nil => rfl
  | cons c front ih =>
      obtain rfl := hfront c (by simp)
      rw [List.cons_append, walk_cons, if_pos (by decide)]
      exact ih fun d hd => hfront d (List.mem_cons_of_mem _ hd)

/-- A plain path is followed name by name from the root. -/
theorem place_plain (h : Path.Plain path cs) :
    t.place cwd followLast path = t.walk followLast linkLimit [] cs := by
  obtain ⟨habsolute, front, hfront, hcomponents⟩ := h.components_eq
  have hne : path.isEmpty = false := by
    rw [Bool.eq_false_iff]
    intro hempty
    rw [String.isEmpty_iff.mp hempty] at habsolute
    cases habsolute
  rw [place, hne, habsolute, hcomponents]
  exact walk_append_empty hfront

/-- Names lead from a directory to the entry that they name. -/
theorem walks_of_get? (ht : t.WellFormed) (hlinks : t.LinkFree)
    (hdir : t.get? dir = some .directory) (hcs : ∀ c ∈ cs, Path.Settled c)
    (h : t.get? (dir ++ cs) = some e) :
    Walks t followLast n dir cs (.found (dir ++ cs) e) := by
  induction cs generalizing dir with
  | nil =>
      rw [List.append_nil, hdir] at h
      obtain rfl := Option.some.inj h
      rw [List.append_nil]
      exact .here n dir
  | cons c cs ih =>
      have hc := hcs c (by simp)
      have hsplit : dir ++ c :: cs = (dir ++ [c]) ++ cs := by simp
      rw [hsplit] at h ⊢
      by_cases hdirectory : t.get? (dir ++ [c]) = some .directory
      · exact .down hc hdirectory (ih hdirectory (fun d hd => hcs d (List.mem_cons_of_mem _ hd)) h)
      · -- Only a directory has something below it, so this is the last name.
        obtain rfl : cs = [] := by
          by_contra hne
          exact hdirectory (ht.get?_of_append hne h)
        rw [List.append_nil] at h ⊢
        refine .last hc h ?_ fun target heq => ?_
        · rintro rfl
          exact hdirectory h
        · exact absurd (heq ▸ h) (hlinks _ target)

/-- A plain path leads to the entry that its names name, if there is one. -/
theorem entryAt?_plain (ht : t.WellFormed) (hlinks : t.LinkFree) (h : Path.Plain path cs) :
    t.entryAt? cwd path = (t.get? cs).map fun e => (cs, e) := by
  have hsettled : ∀ c ∈ cs, Path.Settled c := fun c hc => (h.names c hc).1
  rw [entryAt?, place_plain h]
  cases hget : t.get? cs with
  | some e =>
      have hwalks : Walks t true linkLimit [] cs (.found cs e) :=
        walks_of_get? ht hlinks rfl hsettled hget
      rw [hwalks.walk_eq]
      rfl
  | none =>
      split
      · rename_i p e hwalk
        have hwalks := walks_of_walk hwalk
        obtain rfl : p = cs := by
          have hpath := hwalks.path_eq hlinks (by simp)
          rwa [Path.resolveDots_of_settled hsettled] at hpath
        rw [hwalks.get?_found ht hlinks rfl] at hget
        cases hget
      · rfl

end Plain

theorem length_lt_depthBound {t : FileTree} {q : List String} (h : (t.get? q).isSome = true) :
    q.length < t.depthBound := by
  have hfold : ∀ (l : List (List String × Entry)) (n : Nat), n ≤
      l.foldl (fun n p => max n p.1.length) n ∧
      ∀ p ∈ l, p.1.length ≤ l.foldl (fun n p => max n p.1.length) n := by
    intro l
    induction l with
    | nil => simp
    | cons p l ih =>
        intro n
        obtain ⟨hstart, hall⟩ := ih (max n p.1.length)
        rw [List.foldl_cons]
        refine ⟨by omega, fun q hq => ?_⟩
        rcases List.mem_cons.mp hq with rfl | hq
        · omega
        · exact hall q hq
  have hlongest : q.length ≤ t.entries.foldl (fun n p => max n p.1.length) 0 := by
    by_cases hq : q = []
    · simp [hq]
    · obtain ⟨p, hp, rfl⟩ := List.mem_map.mp ((isSome_get?_iff hq).mp h)
      exact (hfold t.entries 0).2 p hp
  rw [depthBound]
  simp only [linkLimit]
  omega

end FileTree

section Files

variable {t t' : FileTree} {cwd path : String} {cs base : List String} {depth : Nat}

theorem isSome_entryAt?_of_filesBelow {files : List String}
    (h : filesBelow t cwd depth path = .ok files) :
    (t.entryAt? cwd path).isSome = true := by
  cases depth with
  | zero => cases h
  | succ depth =>
      rw [filesBelow] at h
      cases hentry : t.entryAt? cwd path with
      | some found => rfl
      | none =>
          rw [hentry] at h
          cases h

/-- The files at or below a path, if there are any. -/
def filesOf (t : FileTree) (cwd : String) (depth : Nat) (path : String) : List String :=
  (filesBelow t cwd depth path).toOption.getD []

theorem filesOf_eq {files : List String} (h : filesBelow t cwd depth path = .ok files) :
    filesOf t cwd depth path = files := by
  rw [filesOf, h]
  rfl

theorem filesOf_eq_nil (h : t.entryAt? cwd path = none) (depth : Nat) :
    filesOf t cwd depth path = [] := by
  cases depth with
  | zero => rfl
  | succ depth =>
      rw [filesOf, filesBelow, h]
      rfl

/-- The files below a directory, once those below its names are known. -/
theorem filesBelow_directory {dir : List String} {g : String → List String} (depth : Nat)
    (hentry : t.entryAt? cwd path = some (dir, .directory))
    (h : ∀ name ∈ t.names dir, filesBelow t cwd depth (Path.join path name) = .ok (g name)) :
    filesBelow t cwd (depth + 1) path = .ok ((t.names dir).flatMap g) := by
  rw [filesBelow, hentry]
  simp only [mapM_eq_ok h]
  exact congrArg Except.ok List.flatMap_def.symm

/-- The files below a directory are those below its names. -/
theorem filesOf_directory {files : List String} {dir : List String}
    (hentry : t.entryAt? cwd path = some (dir, .directory))
    (h : filesBelow t cwd (depth + 1) path = .ok files) :
    files = (t.names dir).flatMap (fun name => filesOf t cwd depth (Path.join path name)) ∧
      ∀ name ∈ t.names dir, ∃ found, filesBelow t cwd depth (Path.join path name) = .ok found := by
  rw [filesBelow, hentry] at h
  obtain ⟨lists, hlists, h⟩ := bind_eq_ok.mp h
  obtain rfl := Except.ok.inj h
  have hnames : ∀ name ∈ t.names dir, ∃ found, filesBelow t cwd depth (Path.join path name) =
      .ok found :=
    fun name hname => exists_ok_of_mapM hlists hname
  have hmap := mapM_eq_ok (f := fun name => filesBelow t cwd depth (Path.join path name))
    (g := fun name => filesOf t cwd depth (Path.join path name)) (l := t.names dir)
      fun name hname => by
      obtain ⟨found, hfound⟩ := hnames name hname
      rw [filesOf_eq hfound, hfound]
  obtain rfl := Except.ok.inj (hlists.symm.trans hmap)
  exact ⟨List.flatMap_def.symm, hnames⟩

/-- At or below a path, one tree has the entries of the other and perhaps new directories. -/
def AddsDirectories (base : List String) (t t' : FileTree) : Prop :=
  ∀ q, base <+: q → t'.get? q = t.get? q ∨ (t.get? q = none ∧ t'.get? q = some .directory)

theorem AddsDirectories.get?_of_directory (h : AddsDirectories base t t') (hcs : base <+: cs)
    (hdirectory : t'.get? cs = some .directory) :
    t.get? cs = none ∨ t.get? cs = some .directory := by
  rcases h cs hcs with hsame | ⟨hnone, -⟩
  · exact .inr (hsame.symm.trans hdirectory)
  · exact .inl hnone

theorem AddsDirectories.isSome_of_isSome (h : AddsDirectories base t t') (hcs : base <+: cs)
    (hentry : (t.get? cs).isSome = true) : (t'.get? cs).isSome = true := by
  rcases h cs hcs with hsame | ⟨hnone, -⟩
  · rwa [hsame]
  · simp [hnone] at hentry

/-- The files below a directory that was there or was not are those below its names. -/
theorem exists_depth_of_directory (ht : t.WellFormed)
    (hplace : t.entryAt? cwd path = (t.get? cs).map fun e => (cs, e))
    (hfiles : t.get? cs = none ∨ ∃ files, filesBelow t cwd depth path = .ok files)
    (hdirectory : t.get? cs = none ∨ t.get? cs = some .directory) :
    ∃ k, filesOf t cwd depth path =
      (t.names cs).flatMap (fun name => filesOf t cwd k (Path.join path name)) ∧
      ∀ name ∈ t.names cs, ∃ found, filesBelow t cwd k (Path.join path name) = .ok found := by
  rcases hdirectory with hnone | hdirectory
  · have hnames : t.names cs = [] := by
      rw [List.eq_nil_iff_forall_not_mem]
      intro name hname
      obtain ⟨e, he⟩ := Option.isSome_iff_exists.mp (FileTree.mem_names.mp hname)
      simp [ht.get?_of_append (by simp) he] at hnone
    refine ⟨depth, ?_, by simp [hnames]⟩
    rw [hnames, filesOf_eq_nil (by rw [hplace, hnone]; rfl)]
    rfl
  · obtain ⟨files, hfiles⟩ := hfiles.resolve_left (by simp [hdirectory])
    rw [hdirectory, Option.map_some] at hplace
    cases depth with
    | zero => cases hfiles
    | succ depth =>
        obtain ⟨heq, hnames⟩ := filesOf_directory hplace hfiles
        exact ⟨depth, (filesOf_eq hfiles).trans heq, hnames⟩

theorem flatMap_filter_of_nil {α β : Type} {p : α → Bool} {g : α → List β} {l : List α}
    (h : ∀ a ∈ l, p a = false → g a = []) : (l.filter p).flatMap g = l.flatMap g := by
  induction l with
  | nil => rfl
  | cons a l ih =>
      have hrest := ih fun b hb => h b (List.mem_cons_of_mem _ hb)
      cases ha : p a with
      | true => rw [List.filter_cons_of_pos ha, List.flatMap_cons, List.flatMap_cons, hrest]
      | false =>
          rw [List.filter_cons_of_neg (by simp [ha]), List.flatMap_cons, h a (by simp) ha, hrest,
            List.nil_append]

/-- New directories do not change what files are found, and they can be searched. -/
theorem filesBelow_of_addsDirectories (ht : t.WellFormed) (ht' : t'.WellFormed)
    (hlinks : t.LinkFree) (hlinks' : t'.LinkFree) (hadds : AddsDirectories base t t') {depth' : Nat}
    (hpath : Path.Plain path cs) (hcs : base <+: cs) (hentry : (t'.get? cs).isSome = true)
    (hdepth : ∀ q, (t'.get? q).isSome = true → q.length < depth' + cs.length)
    (hfiles : t.get? cs = none ∨ ∃ files, filesBelow t cwd depth path = .ok files) :
    filesBelow t' cwd depth' path = .ok (filesOf t cwd depth path) := by
  induction depth' generalizing depth path cs with
  | zero =>
      have hlength := hdepth cs hentry
      omega
  | succ depth' ih =>
      have hplace : t.entryAt? cwd path = (t.get? cs).map fun e => (cs, e) :=
        FileTree.entryAt?_plain ht hlinks hpath
      have hplace' : t'.entryAt? cwd path = (t'.get? cs).map fun e => (cs, e) :=
        FileTree.entryAt?_plain ht' hlinks' hpath
      obtain ⟨e, he⟩ := Option.isSome_iff_exists.mp hentry
      rw [he, Option.map_some] at hplace'
      by_cases hdirectory : e = .directory
      · subst hdirectory
        obtain ⟨depth, hold, hnames⟩ :=
          exists_depth_of_directory ht hplace hfiles (hadds.get?_of_directory hcs he)
        have hfound : ∀ name ∈ t'.names cs, filesBelow t' cwd depth' (Path.join path name) =
            .ok (filesOf t cwd depth (Path.join path name)) := by
          intro name hname
          have hchild := FileTree.mem_names.mp hname
          obtain ⟨entry, hentry⟩ := Option.isSome_iff_exists.mp hchild
          have hname : Path.IsName name := ht'.names _ _ hentry name (by simp)
          refine ih (hpath.join hname) (hcs.trans (List.prefix_append _ _)) hchild
            (fun q hq => ?_) ?_
          · have hlength := hdepth q hq
            rw [List.length_append, List.length_singleton]
            omega
          · cases hget : t.get? (cs ++ [name]) with
            | none => exact .inl rfl
            | some old => exact .inr (hnames name (FileTree.mem_names.mpr (by rw [hget]; rfl)))
        have hkept : ∀ name, (t.get? (cs ++ [name])).isSome = true →
            (t'.get? (cs ++ [name])).isSome = true :=
          fun name => hadds.isSome_of_isSome (hcs.trans (List.prefix_append cs [name]))
        rw [filesBelow_directory depth' hplace' hfound, hold, FileTree.names_eq_filter ht ht' hkept,
          flatMap_filter_of_nil]
        intro name hname hnew
        have hchild := FileTree.mem_names.mp hname
        obtain ⟨entry, hentry⟩ := Option.isSome_iff_exists.mp hchild
        apply filesOf_eq_nil
        rw [FileTree.entryAt?_plain ht hlinks (hpath.join (ht'.names _ _ hentry name (by simp)))]
        simpa using hnew
      · -- What is not a directory was there before.
        have hget : t.get? cs = some e := by
          rcases hadds cs hcs with hsame | ⟨-, hnew⟩
          · exact hsame.symm.trans he
          · exact absurd (Option.some.inj (he.symm.trans hnew)) hdirectory
        obtain ⟨files, hfiles⟩ := hfiles.resolve_left (by simp [hget])
        rw [hget, Option.map_some] at hplace
        cases depth with
        | zero => cases hfiles
        | succ depth =>
            have hsame : filesBelow t' cwd (depth' + 1) path =
                filesBelow t cwd (depth + 1) path := by
              rw [filesBelow, filesBelow, hplace, hplace']
              cases e with
              | directory => exact absurd rfl hdirectory
              | _ => rfl
            rw [hsame, filesOf_eq hfiles, hfiles]

/-- A file that is found at or below a path is at the path itself, or has some more names after
it. -/
theorem plain_of_mem_filesBelow (ht : t.WellFormed) (hlinks : t.LinkFree)
    (hpath : Path.Plain path cs) {files : List String} (h : filesBelow t cwd depth path = .ok files)
    {file : String} (hfile : file ∈ files) :
    (file = path ∧ cs ≠ []) ∨ ∃ below, below ≠ [] ∧ Path.Plain file (cs ++ below) := by
  induction depth generalizing path cs files with
  | zero => cases h
  | succ depth ih =>
      have hplace : t.entryAt? cwd path = (t.get? cs).map fun e => (cs, e) :=
        FileTree.entryAt?_plain ht hlinks hpath
      cases hget : t.get? cs with
      | none =>
          rw [filesBelow, hplace, hget] at h
          cases h
      | some e =>
          rw [hget, Option.map_some] at hplace
          cases e with
          | directory =>
              obtain ⟨rfl, hnames⟩ := filesOf_directory hplace h
              obtain ⟨name, hname, hmem⟩ := List.mem_flatMap.mp hfile
              obtain ⟨found, hfound⟩ := hnames name hname
              obtain ⟨entry, hentry⟩ := Option.isSome_iff_exists.mp (FileTree.mem_names.mp hname)
              have hchild := hpath.join (ht.names _ _ hentry name (by simp))
              rw [filesOf_eq hfound] at hmem
              rcases ih hchild hfound hmem with ⟨rfl, -⟩ | ⟨below, -, hbelow⟩
              · exact .inr ⟨[name], by simp, hchild⟩
              · exact .inr ⟨name :: below, by simp, by simpa using hbelow⟩
          | file bytes =>
              rw [filesBelow, hplace] at h
              obtain rfl := Except.ok.inj h
              refine .inl ⟨List.mem_singleton.mp hfile, ?_⟩
              rintro rfl
              cases hget
          | _ =>
              rw [filesBelow, hplace] at h
              cases h

variable {inputs : List String} {found : List (String × String)}

/-- The files of an input, each with the input. -/
def filesOfInput (t : FileTree) (cwd input : String) : List (String × String) :=
  (filesOf t cwd t.depthBound (Path.absolute cwd input)).map fun path =>
    (path, Path.absolute cwd input)

/-- Discovery succeeds exactly if the files of every input are found, and gives them input by
input. -/
theorem discover_eq_ok_iff : discover t cwd inputs = .ok found ↔
    (∀ input ∈ inputs, ∃ files, filesBelow t cwd t.depthBound (Path.absolute cwd input) =
      .ok files) ∧
      found = inputs.flatMap (filesOfInput t cwd) := by
  have hmap (hfiles : ∀ input ∈ inputs, ∃ files,
      filesBelow t cwd t.depthBound (Path.absolute cwd input) = .ok files) :
      discover t cwd inputs = .ok (inputs.flatMap (filesOfInput t cwd)) := by
    refine bind_eq_ok.mpr ⟨inputs.map (filesOfInput t cwd), mapM_eq_ok fun input hinput => ?_, ?_⟩
    · obtain ⟨files, hfiles⟩ := hfiles input hinput
      refine bind_eq_ok.mpr ⟨files, hfiles, ?_⟩
      rw [filesOfInput, filesOf_eq hfiles]
      rfl
    · exact congrArg Except.ok List.flatMap_def.symm
  constructor
  · intro h
    obtain ⟨lists, hlists, -⟩ := bind_eq_ok.mp h
    have hfiles : ∀ input ∈ inputs, ∃ files, filesBelow t cwd t.depthBound
        (Path.absolute cwd input) = .ok files := by
      intro input hinput
      obtain ⟨pairs, hpairs⟩ := exists_ok_of_mapM hlists hinput
      obtain ⟨files, hfiles, -⟩ := bind_eq_ok.mp hpairs
      exact ⟨files, hfiles⟩
    exact ⟨hfiles, Except.ok.inj (h.symm.trans (hmap hfiles))⟩
  · rintro ⟨hfiles, rfl⟩
    exact hmap hfiles

/-- What is discovered is an input itself, or has some more names after an input. -/
theorem plain_of_mem_discover (hcwd : Path.isAbsolute cwd = true) (ht : t.WellFormed)
    (hlinks : t.LinkFree) (h : discover t cwd inputs = .ok found) {file : String × String}
    (hfile : file ∈ found) :
    ∃ input ∈ inputs, file.2 = Path.absolute cwd input ∧
      ((file.1 = file.2 ∧ Path.absoluteComponents cwd input ≠ []) ∨
        ∃ below, below ≠ [] ∧ Path.Plain file.1 (Path.absoluteComponents cwd input ++ below)) := by
  obtain ⟨hfiles, rfl⟩ := discover_eq_ok_iff.mp h
  obtain ⟨input, hinput, hmem⟩ := List.mem_flatMap.mp hfile
  obtain ⟨path, hpath, rfl⟩ := List.mem_map.mp hmem
  obtain ⟨files, hbelow⟩ := hfiles input hinput
  rw [filesOf_eq hbelow] at hpath
  refine ⟨input, hinput, ?_⟩
  simp only [true_and]
  exact plain_of_mem_filesBelow ht hlinks (Path.plain_absolute hcwd input) hbelow hpath

/-- What is discovered has plain paths at or below the inputs. -/
theorem exists_plain_of_mem_discover (hcwd : Path.isAbsolute cwd = true) (ht : t.WellFormed)
    (hlinks : t.LinkFree) (h : discover t cwd inputs = .ok found) {file : String × String}
    (hfile : file ∈ found) :
    ∃ input ∈ inputs, ∃ cs, Path.Plain file.1 cs ∧ Path.absoluteComponents cwd input <+: cs := by
  obtain ⟨input, hinput, hroot, hcases⟩ := plain_of_mem_discover hcwd ht hlinks h hfile
  refine ⟨input, hinput, ?_⟩
  rcases hcases with ⟨hpath, -⟩ | ⟨below, -, hplain⟩
  · rw [hpath, hroot]
    exact ⟨_, Path.plain_absolute hcwd input, List.prefix_rfl⟩
  · exact ⟨_, hplain, List.prefix_append _ _⟩

/-- New directories at or below the inputs do not change what is discovered. -/
theorem discover_of_addsDirectories (hcwd : Path.isAbsolute cwd = true) (ht : t.WellFormed)
    (ht' : t'.WellFormed) (hlinks : t.LinkFree) (hlinks' : t'.LinkFree)
    (hadds : ∀ input ∈ inputs, AddsDirectories (Path.absoluteComponents cwd input) t t')
    (h : discover t cwd inputs = .ok found) : discover t' cwd inputs = .ok found := by
  obtain ⟨hfiles, rfl⟩ := discover_eq_ok_iff.mp h
  have hsame : ∀ input ∈ inputs, filesBelow t' cwd t'.depthBound (Path.absolute cwd input) =
      .ok (filesOf t cwd t.depthBound (Path.absolute cwd input)) := by
    intro input hinput
    have hpath := Path.plain_absolute hcwd input
    obtain ⟨files, hbelow⟩ := hfiles input hinput
    have hentry : (t.get? (Path.absoluteComponents cwd input)).isSome = true := by
      have hfound := isSome_entryAt?_of_filesBelow hbelow
      rwa [FileTree.entryAt?_plain ht hlinks hpath, Option.isSome_map] at hfound
    have hentry' := (hadds input hinput).isSome_of_isSome List.prefix_rfl hentry
    exact filesBelow_of_addsDirectories ht ht' hlinks hlinks' (hadds input hinput) hpath
      List.prefix_rfl hentry'
      (fun q hq => Nat.lt_add_right _ (FileTree.length_lt_depthBound hq)) (.inr ⟨files, hbelow⟩)
  refine discover_eq_ok_iff.mpr ⟨fun input hinput => ⟨_, hsame input hinput⟩, ?_⟩
  refine List.flatMap_congr fun input hinput => ?_
  rw [filesOfInput, filesOfInput, filesOf_eq (hsame input hinput)]

end Files

end ScriptModules
