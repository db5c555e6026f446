import ScriptModules.Block.Basic
import ScriptModules.Proofs.Path.Components

/-!
# Where specifiers lead

The specifier between two files, seen from the directory of the importing file, is the path of the
exporting file: the components between the directories are found by removing the common part, and
going up over what is left of one and down into what is left of the other comes out there. So a
specifier determines where it leads, and only a path that names no directory has none.
-/

namespace ScriptModules.Path

open Text

variable {cwd importer exporter specifier dir a b p : String} {cs : List String} {x : Char}

theorem mem_join (h : x ∈ (join a b).toList) : x ∈ a.toList ∨ x ∈ b.toList ∨ x = '/' := by
  rw [join] at h
  split at h
  · exact .inr (.inl h)
  · split at h
    · rw [String.toList_append] at h
      exact (List.mem_append.mp h).imp_right .inl
    · have htext : (a ++ "/" ++ b).toList = a.toList ++ '/' :: b.toList := by simp
      rw [htext, List.mem_append, List.mem_cons] at h
      exact h.imp_right Or.symm

theorem mem_joinComponents (h : x ∈ (joinComponents cs).toList) :
    x = '/' ∨ ∃ c ∈ cs, x ∈ c.toList := by
  induction cs with
  | nil => simp [joinComponents] at h
  | cons c cs ih =>
      cases cs with
      | nil => exact .inr ⟨c, by simp, by simpa [joinComponents] using h⟩
      | cons d cs =>
          rw [toList_joinComponents_cons, List.mem_append, List.mem_cons] at h
          rcases h with h | h | h
          · exact .inr ⟨c, by simp, h⟩
          · exact .inl h
          · refine (ih h).imp_right ?_
            rintro ⟨e, he, hx⟩
            exact ⟨e, List.mem_cons_of_mem _ he, hx⟩

theorem mem_parent (h : x ∈ (parent p).toList) : x ∈ p.toList := by
  rcases (fileName_spec p).2 with ⟨hparent, -⟩ | ⟨l, hl, hparent⟩
  · simp [hparent] at h
  · obtain ⟨⟨slashes, -, hsplit⟩, -⟩ := dropEndSlashes_spec (l ++ ['/'])
    rw [hparent, String.toList_ofList] at h
    have hdir : x ∈ l ++ ['/'] := by
      rw [hsplit]
      exact List.mem_append_left _ h
    rw [hl]
    simp only [List.mem_append, List.mem_cons, List.not_mem_nil, or_false] at hdir ⊢
    exact hdir.imp_right .inl

theorem mem_fileName (h : x ∈ (fileName p).toList) : x ∈ p.toList := by
  rw [fileName, String.toList_ofList, List.mem_reverse] at h
  exact List.mem_reverse.mp ((List.takeWhile_sublist _).subset h)

theorem map_slashed {l : List Char} (h : '\\' ∉ l) : l.map slashed = l := by
  induction l with
  | nil => rfl
  | cons x l ih =>
      obtain ⟨hx, hl⟩ := not_or.mp (mt List.mem_cons.mpr h)
      simp [slashed, Ne.symm hx, ih hl]

theorem mem_relativeComponents {start path : List String} {c : String}
    (h : c ∈ relativeComponents start path) :
    c = ".." ∨ c ∈ path := by
  rw [relativeComponents, List.mem_append] at h
  rcases h with h | h
  · exact .inl (List.eq_of_mem_replicate h)
  · exact .inr (List.mem_of_mem_drop h)

theorem isAbsolute_joinComponents (h : ∀ c ∈ cs, c ≠ "" ∧ '/' ∉ c.toList) :
    isAbsolute (joinComponents cs) = false := by
  cases cs with
  | nil => rfl
  | cons c cs =>
      obtain ⟨hne, hslash⟩ := h c (by simp)
      obtain ⟨x, l, hl⟩ := List.exists_cons_of_ne_nil (by simpa using hne : c.toList ≠ [])
      have hc := isAbsolute_of_not_mem hslash
      rw [isAbsolute, hl] at hc
      have hhead : (joinComponents (c :: cs)).toList.head? = some x := by
        cases cs <;> simp [joinComponents, hl]
      rw [isAbsolute, hhead]
      exact hc

/-- The path from one directory to another is relative, leads there, and holds no character but
dots, slashes and those of the second directory as seen from the root. -/
theorem relative?_spec {start path : String} (hcwd : isAbsolute cwd = true)
    (h : relative? cwd path start = some dir) :
    isAbsolute dir = false ∧
      resolveDots true (absoluteComponents cwd start).reverse (parts dir) =
        absoluteComponents cwd path ∧
      ∀ x ∈ dir.toList, x = '.' ∨ x = '/' ∨ (isAbsolute path = false ∧ x ∈ cwd.toList) ∨
        x ∈ path.toList := by
  have hstart : ∀ c ∈ absoluteComponents cwd start, Settled c :=
    fun c hc => (mem_absoluteComponents hcwd hc).1
  have hpath : ∀ c ∈ absoluteComponents cwd path, Settled c :=
    fun c hc => (mem_absoluteComponents hcwd hc).1
  have hleads := resolveDots_relativeComponents hstart hpath
  have hmem : ∀ c ∈ relativeComponents (absoluteComponents cwd start) (absoluteComponents cwd path),
      c ≠ "" ∧ '/' ∉ c.toList ∧
        ∀ x ∈ c.toList, x = '.' ∨ (isAbsolute path = false ∧ x ∈ cwd.toList) ∨ x ∈ path.toList := by
    intro c hc
    rcases mem_relativeComponents hc with rfl | hc
    · refine ⟨by decide, by decide, fun x hx => .inl ?_⟩
      simpa using hx
    · obtain ⟨hsettled, hslash, hchars⟩ := mem_absoluteComponents hcwd hc
      exact ⟨hsettled.ne_empty, hslash, fun x hx => .inr (hchars x hx)⟩
  rw [relative?] at h
  split at h
  · simp at h
  · obtain rfl := Option.some.inj h
    generalize relativeComponents (absoluteComponents cwd start) (absoluteComponents cwd path) = cs
      at hleads hmem
    cases cs with
    | nil =>
        refine ⟨rfl, ?_, by simp⟩
        rw [← hleads]
        rfl
    | cons c cs =>
        have hparts := parts_joinComponents fun c hc => ⟨(hmem c hc).1, (hmem c hc).2.1⟩
        have habsolute := isAbsolute_joinComponents fun c hc => ⟨(hmem c hc).1, (hmem c hc).2.1⟩
        refine ⟨habsolute, by simpa [hparts] using hleads, fun x hx => ?_⟩
        rcases mem_joinComponents (by simpa using hx) with rfl | ⟨d, hd, hx⟩
        · exact .inr (.inl rfl)
        · rcases (hmem d hd).2.2 x hx with rfl | hx
          · exact .inl rfl
          · exact .inr (.inr hx)

/-- A specifier is a relative path whose parts are those of the way between the directories and the
file name. -/
theorem relativeSpecifier_spec (hcwd : isAbsolute cwd = true)
    (hslash : isAbsolute exporter = false → '\\' ∉ cwd.toList) (hexporter : '\\' ∉ exporter.toList)
    (h : relativeSpecifier cwd importer exporter = .ok specifier) :
    isAbsolute specifier = false ∧
      ∃ dir, relative? cwd (parent exporter) (parent importer) = some dir ∧
      ∀ kept, resolveDots true kept (parts specifier) =
        resolveDots true kept (parts dir ++ parts (fileName exporter)) := by
  rw [relativeSpecifier] at h
  split at h
  · simp [throw, throwThe, MonadExceptOf.throw] at h
  · rename_i dir hdir
    obtain ⟨hrelative, -, hchars⟩ := relative?_spec hcwd hdir
    have hplain : '\\' ∉ (join dir (fileName exporter)).toList := by
      intro hmem
      rcases mem_join hmem with hmem | hmem | hmem
      · rcases hchars _ hmem with hx | hx | hx | hx
        · simp at hx
        · simp at hx
        · exact hslash (isAbsolute_parent exporter ▸ hx.1) hx.2
        · exact hexporter (mem_parent hx)
      · exact hexporter (mem_fileName hmem)
      · simp at hmem
    have hparts := parts_join (a := dir) (isAbsolute_fileName exporter)
    have habsolute := (isAbsolute_join (a := dir) (isAbsolute_fileName exporter)).trans hrelative
    rw [map_slashed hplain] at h
    obtain rfl := Except.ok.inj h
    split
    · rw [String.ofList_toList, hparts]
      exact ⟨habsolute, dir, hdir, fun kept => rfl⟩
    · refine ⟨by simp [isAbsolute], dir, hdir, fun kept => ?_⟩
      have hdot : ∀ l, partsOf ('.' :: '/' :: l) = "." :: partsOf l := partsOf_append ['.']
      rw [parts_eq_partsOf, String.toList_ofList, hdot, resolveDots_cons_dot,
        ← parts_eq_partsOf, hparts]

/-- Seen from the directory of the importing file, a specifier is the path of the exporting file. -/
theorem absoluteComponents_specifier (hcwd : isAbsolute cwd = true)
    (hslash : isAbsolute exporter = false → '\\' ∉ cwd.toList) (hexporter : '\\' ∉ exporter.toList)
    (h : relativeSpecifier cwd importer exporter = .ok specifier) :
    absoluteComponents cwd (join (parent importer) specifier) =
      absoluteComponents cwd exporter := by
  obtain ⟨hrelative, dir, hdir, hparts⟩ := relativeSpecifier_spec hcwd hslash hexporter h
  obtain ⟨-, hleads, -⟩ := relative?_spec hcwd hdir
  calc absoluteComponents cwd (join (parent importer) specifier)
      = resolveDots true [] (absoluteParts cwd (parent importer) ++ parts specifier) := by
        rw [absoluteComponents_eq hcwd, absoluteParts_join hrelative]
    _ = resolveDots true (absoluteComponents cwd (parent importer)).reverse (parts specifier) := by
        rw [resolveDots_append, ← absoluteComponents_eq hcwd]
    _ = resolveDots true (absoluteComponents cwd (parent exporter)).reverse
      (parts (fileName exporter)) := by
        rw [hparts, resolveDots_append, hleads]
    _ = resolveDots true [] (absoluteParts cwd (parent exporter) ++ parts (fileName exporter)) := by
        rw [resolveDots_append, ← absoluteComponents_eq hcwd]
    _ = absoluteComponents cwd exporter := by
        rw [← absoluteParts_parent, absoluteComponents_eq hcwd]

theorem rootSlashes_absolute (hcwd : isAbsolute cwd = true) (p : String) :
    rootSlashes (absolute cwd p) = rootOf cwd p := by
  have hmem : ∀ c ∈ absoluteComponents cwd p, c ≠ "" ∧ '/' ∉ c.toList := fun c hc =>
    ⟨(mem_absoluteComponents hcwd hc).1.ne_empty, (mem_absoluteComponents hcwd hc).2.1⟩
  have hstop := takeWhile_slash_of_not_isAbsolute (isAbsolute_joinComponents hmem)
  rw [absolute_eq hcwd, rootSlashes, String.toList_append, takeWhile_append_of_stop (.inl hstop)]
  rcases rootOf_eq hcwd p with hroot | hroot <;> rw [hroot] <;> rfl

theorem rootOf_join_parent (hb : isAbsolute b = false) (p : String) :
    rootOf cwd (join (parent p) b) = rootOf cwd p := by
  rw [rootOf, rootOf, isAbsolute_join hb, isAbsolute_parent]
  cases hp : isAbsolute p with
  | false => rfl
  | true =>
      have hne : parent p ≠ "" := by
        intro hempty
        rw [← isAbsolute_parent, hempty] at hp
        simp [isAbsolute] at hp
      rw [if_pos rfl, if_pos rfl, rootSlashes_join hne hb, rootSlashes_parent hp]

/-- Paths that lead to the same components from the same root are the same text. -/
theorem absolute_eq_of_components (hcwd : isAbsolute cwd = true)
    (hcomponents : absoluteComponents cwd a = absoluteComponents cwd b)
    (hroot : rootSlashes (absolute cwd a) = rootSlashes (absolute cwd b)) :
    absolute cwd a = absolute cwd b := by
  rw [rootSlashes_absolute hcwd, rootSlashes_absolute hcwd] at hroot
  rw [absolute_eq hcwd, absolute_eq hcwd b, hroot, hcomponents]

/-- The specifier, seen from the directory of the importing file, is the path of the exporting file:
they have the same components from the root, and are the same text where both files start at the
same root. -/
structure LeadsTo (cwd importer specifier exporter : String) : Prop where
  components : absoluteComponents cwd (join (parent importer) specifier) =
    absoluteComponents cwd exporter
  text : rootSlashes (absolute cwd importer) = rootSlashes (absolute cwd exporter) →
    absolute cwd (join (parent importer) specifier) = absolute cwd exporter

/-- The specifier from one file to another leads there. -/
theorem leadsTo_relativeSpecifier (hcwd : isAbsolute cwd = true)
    (hslash : isAbsolute exporter = false → '\\' ∉ cwd.toList) (hexporter : '\\' ∉ exporter.toList)
    (h : relativeSpecifier cwd importer exporter = .ok specifier) :
    LeadsTo cwd importer specifier exporter := by
  have hrelative := (relativeSpecifier_spec hcwd hslash hexporter h).1
  have hcomponents := absoluteComponents_specifier hcwd hslash hexporter h
  refine ⟨hcomponents, fun hroot => absolute_eq_of_components hcwd hcomponents ?_⟩
  rw [rootSlashes_absolute hcwd, rootOf_join_parent hrelative, ← rootSlashes_absolute hcwd, hroot]

section Written

variable {importer exporter specifier p : String}

/-- Only a path without a slash has no parent. -/
theorem isEmpty_parent_iff : (parent p).isEmpty = true ↔ '/' ∉ p.toList := by
  obtain ⟨hname, hcases⟩ := fileName_spec p
  rw [String.isEmpty_iff]
  rcases hcases with ⟨hparent, hp⟩ | ⟨l, hl, hparent⟩
  · rw [hp] at hname
    exact ⟨fun _ => hname, fun _ => hparent⟩
  · constructor
    · intro hempty
      -- the first character of what stands before the file name is never dropped
      have hhead := (dropEndSlashes_spec (l ++ ['/'])).2
      rw [hparent, String.ofList_eq_empty_iff] at hempty
      rw [hempty] at hhead
      cases l <;> simp at hhead
    · intro hslash
      exact absurd (by rw [hl]; simp) hslash

/-- There is no specifier for a path without a slash, and one for any other. -/
theorem relativeSpecifier_cases (cwd importer exporter : String) :
    ('/' ∉ exporter.toList ∧ relativeSpecifier cwd importer exporter = .error .noPath) ∨
      ('/' ∈ exporter.toList ∧ ∃ specifier, relativeSpecifier cwd importer exporter =
        .ok specifier) := by
  rw [relativeSpecifier, relative?]
  by_cases hempty : (parent exporter).isEmpty = true
  · rw [if_pos hempty]
    exact .inl ⟨isEmpty_parent_iff.mp hempty, rfl⟩
  · rw [if_neg hempty]
    exact .inr ⟨not_not.mp (mt isEmpty_parent_iff.mpr hempty), _, rfl⟩

/-- A specifier starts with a dot or two and a slash. -/
theorem startsWithDots_relativeSpecifier
    (h : relativeSpecifier cwd importer exporter = .ok specifier) :
    startsWithDots specifier.toList = true := by
  rw [relativeSpecifier] at h
  split at h
  · cases h
  · obtain rfl := Except.ok.inj h
    rw [String.toList_ofList]
    split
    · assumption
    · rfl

end Written

/-- The specifier between two files is refused exactly if the path of the exporting file holds no
slash. Any other starts at the directory of the importing file or above it and leads to the
exporting path. It therefore determines that path: its components and, from the same root, its text.
The current directory counts for backslashes only where the exporting path is seen from it. -/
theorem relativeSpecifier_inverse (cwd importer exporter : String) (hcwd : isAbsolute cwd = true)
    (hslash : isAbsolute exporter = false → '\\' ∉ cwd.toList)
    (hexporter : '\\' ∉ exporter.toList) :
    (relativeSpecifier cwd importer exporter = .error .noPath ↔ '/' ∉ exporter.toList) ∧
    ('/' ∈ exporter.toList → ∃ specifier, relativeSpecifier cwd importer exporter = .ok specifier ∧
      ("./".toList <+: specifier.toList ∨ "../".toList <+: specifier.toList) ∧
      LeadsTo cwd importer specifier exporter) ∧
    ∀ other specifier, (isAbsolute other = false → '\\' ∉ cwd.toList) → '\\' ∉ other.toList →
      relativeSpecifier cwd importer exporter = .ok specifier →
      relativeSpecifier cwd importer other = .ok specifier →
      absoluteComponents cwd exporter = absoluteComponents cwd other ∧
        (rootSlashes (absolute cwd exporter) = rootSlashes (absolute cwd other) →
          absolute cwd exporter = absolute cwd other) := by
  refine ⟨?_, ?_, ?_⟩
  · rcases relativeSpecifier_cases cwd importer exporter with
      ⟨hnone, herror⟩ | ⟨hsome, specifier, hok⟩
    · exact ⟨fun _ => hnone, fun _ => herror⟩
    · rw [hok]
      exact ⟨nofun, fun hnone => absurd hsome hnone⟩
  · intro hsome
    obtain ⟨-, specifier, hok⟩ :=
      (relativeSpecifier_cases cwd importer exporter).resolve_left fun h => h.1 hsome
    have hdots := startsWithDots_relativeSpecifier hok
    rw [startsWithDots, Bool.or_eq_true, List.isPrefixOf_iff_prefix,
      List.isPrefixOf_iff_prefix] at hdots
    exact ⟨specifier, hok, hdots, leadsTo_relativeSpecifier hcwd hslash hexporter hok⟩
  · intro other specifier hother hplain hok hsame
    have hcomponents :=
      calc absoluteComponents cwd exporter
          = absoluteComponents cwd (join (parent importer) specifier) :=
            (absoluteComponents_specifier hcwd hslash hexporter hok).symm
        _ = absoluteComponents cwd other := absoluteComponents_specifier hcwd hother hplain hsame
    exact ⟨hcomponents, absolute_eq_of_components hcwd hcomponents⟩

theorem relativeSpecifier_inverse_hidden :
    isAbsolute "/work" = true ∧ '\\' ∉ "/work".toList ∧ '\\' ∉ "out//./..x/b.js".toList ∧
      relativeSpecifier "/work" "/work/out/.hidden/../a.js" "out//./..x/b.js" = .ok "./..x/b.js" ∧
      LeadsTo "/work" "/work/out/.hidden/../a.js" "./..x/b.js" "out//./..x/b.js" := by
  have hplain : '\\' ∉ "/work".toList ∧ '\\' ∉ "out//./..x/b.js".toList := by decide
  have hwritten : relativeSpecifier "/work" "/work/out/.hidden/../a.js" "out//./..x/b.js" =
      .ok "./..x/b.js" := by
    decide +kernel
  obtain ⟨specifier, hok, -, hleads⟩ := (relativeSpecifier_inverse "/work"
    "/work/out/.hidden/../a.js" "out//./..x/b.js" (by decide) (fun _ => hplain.1)
    hplain.2).2.1 (by decide)
  obtain rfl := Except.ok.inj (hwritten.symm.trans hok)
  exact ⟨by decide, hplain.1, hplain.2, hwritten, hleads⟩

/-- In a directory whose name holds a backslash, a relative path has the specifier of another path,
and the specifier does not lead to it. In any directory, a path that starts with two slashes has the
specifier of the one that starts with one. -/
theorem relativeSpecifier_not_injective :
    (relativeSpecifier "/a\\b" "/x/i.js" "e/f.js" = .ok "../a/b/e/f.js" ∧
      relativeSpecifier "/a\\b" "/x/i.js" "/a/b/e/f.js" = .ok "../a/b/e/f.js" ∧
      absoluteComponents "/a\\b" (join (parent "/x/i.js") "../a/b/e/f.js") =
        ["a", "b", "e", "f.js"] ∧
      absoluteComponents "/a\\b" "e/f.js" = ["a\\b", "e", "f.js"]) ∧
    relativeSpecifier "/work" "/x/i.js" "/e/f.js" = .ok "../e/f.js" ∧
      relativeSpecifier "/work" "/x/i.js" "//e/f.js" = .ok "../e/f.js" ∧
      absolute "/work" "/e/f.js" = "/e/f.js" ∧ absolute "/work" "//e/f.js" = "//e/f.js" := by
  decide +kernel

end ScriptModules.Path
