import ScriptModules.Proofs.Converter.Effect
import ScriptModules.Proofs.Discovery

/-!
# Converting twice

A conversion reads files at or below its inputs and writes files elsewhere, so it finds its inputs
as they were when it runs again; at most there are new directories among them. It then stores the
same contents at the same places in the same order. Main statement: in a well-formed tree without
links, and with no output at or below an input, a second conversion succeeds like the first and
changes nothing.
-/

namespace ScriptModules

section Trees

variable {encode : Encoder} {o : Options} {cwd : String} {exportMap : ExportMap}
  {t t' t'' : FileTree} {result : Result} {records : List FileRecord} {q : List String}

theorem WritesAll.wellFormed (h : WritesAll encode o cwd exportMap t records t') (ht : t.WellFormed)
    (hlinks : t.LinkFree) (hcwd : t.HasCurrent cwd) : t'.WellFormed := by
  induction h with
  | nil t => exact ht
  | cons _ hwrites _ ih =>
      exact ih (hwrites.wellFormed ht hlinks hcwd) (hwrites.linkFree hlinks)
        (hcwd.grows hwrites.grows)

/-- Where no output lies at or below a path, at most directories are new there. -/
theorem WritesAll.addsDirectories (h : WritesAll encode o cwd exportMap t records t')
    (hcwd : Path.Current cwd) (hlinks : t.LinkFree) {base : List String}
    (hapart : ∀ r ∈ records, ¬base <+: Path.absoluteComponents cwd r.outputPath) :
    AddsDirectories base t t' := by
  intro q hq
  rcases h.get?_cases (.refl t') q with ⟨r, hr, hlanding⟩ | hsame | ⟨hnone, hdirectory, -⟩
  · rw [FileTree.landing_eq_absolute hcwd (h.linkFree hlinks) hlanding] at hq
    exact absurd hq (hapart r hr)
  · exact .inl hsame
  · exact .inr ⟨hnone, hdirectory⟩

/-- Of the files that were written at a place, the last one is there. -/
theorem WritesAll.get?_last (h : WritesAll encode o cwd exportMap t records t')
    (hcwd : Path.Current cwd) (hlinks : t.LinkFree) {r : FileRecord}
    (hr : r ∈ (records.filter (Path.absoluteComponents cwd ·.outputPath = q)).getLast?) :
    ∃ bytes, writtenBytes encode o cwd exportMap r = .ok bytes ∧
      t'.get? q = some (.file bytes) := by
  induction h with
  | nil t => simp at hr
  | @cons t t₁ t' first rest bytes p hbytes hwrites hrest ih =>
      by_cases hlater : rest.filter (Path.absoluteComponents cwd ·.outputPath = q) = []
      · -- Nothing is written at the place after the first file.
        have hother : ∀ s ∈ rest, Path.absoluteComponents cwd s.outputPath ≠ q := by
          intro s hs hq
          have hmem : s ∈ rest.filter (Path.absoluteComponents cwd ·.outputPath = q) :=
            List.mem_filter.mpr ⟨hs, by simpa using hq⟩
          simp [hlater] at hmem
        rw [List.filter_cons, hlater] at hr
        split at hr
        · rename_i hq
          obtain rfl : first = r := by simpa using hr
          obtain rfl : p = q := by
            have hlanding := (hwrites.landing_eq (.refl t₁)).1
            exact (FileTree.landing_eq_absolute hcwd (hwrites.linkFree hlinks) hlanding).trans
              (by simpa using hq)
          refine ⟨bytes, hbytes, ?_⟩
          rcases hrest.get?_cases (.refl t') p with ⟨s, hs, hlanding⟩ | hsame | ⟨hnone, -⟩
          · have hlinks' := hrest.linkFree (hwrites.linkFree hlinks)
            exact absurd (FileTree.landing_eq_absolute hcwd hlinks' hlanding).symm (hother s hs)
          · exact hsame.trans hwrites.get?_eq
          · simp [hwrites.get?_eq] at hnone
        · simp at hr
      · refine ih (hwrites.linkFree hlinks) ?_
        rw [List.filter_cons] at hr
        split at hr
        · rwa [List.getLast?_cons_of_ne_nil hlater] at hr
        · exact hr

/-- Writing the same files once more changes nothing. -/
theorem WritesAll.get?_again (h : WritesAll encode o cwd exportMap t records t')
    (h' : WritesAll encode o cwd exportMap t' records t'') (hcwd : Path.Current cwd)
    (hlinks : t.LinkFree) (q : List String) : t''.get? q = t'.get? q := by
  have hlinks' := h.linkFree hlinks
  cases hlast : (records.filter (Path.absoluteComponents cwd ·.outputPath = q)).getLast? with
  | some r =>
      obtain ⟨bytes, hbytes, hfirst⟩ := h.get?_last hcwd hlinks hlast
      obtain ⟨bytes', hbytes', hsecond⟩ := h'.get?_last hcwd hlinks' hlast
      obtain rfl := Except.ok.inj (hbytes.symm.trans hbytes')
      rw [hfirst, hsecond]
  | none =>
      have hother : ∀ r ∈ records, Path.absoluteComponents cwd r.outputPath ≠ q := by
        rw [List.getLast?_eq_none_iff, List.filter_eq_nil_iff] at hlast
        simpa using hlast
      rcases h'.get?_cases (.refl t'') q with ⟨r, hr, hlanding⟩ | hsame | ⟨hnone, -, hroute⟩
      · exact absurd (FileTree.landing_eq_absolute hcwd (h'.linkFree hlinks') hlanding).symm
          (hother r hr)
      · exact hsame
      · -- A leading part of an output path leads to a directory since the files were written first.
        obtain ⟨r, hr, hmem⟩ := hroute hlinks'
        simp [h.get?_route hcwd hlinks hr hmem (hother r hr)] at hnone

/-- The same files can be written once more. -/
theorem WritesAll.failure_again (h : WritesAll encode o cwd exportMap t records t')
    (hlinks : t.LinkFree) : (storeAll encode o cwd exportMap t' result records).failure = none := by
  rcases storeAll_cases encode o cwd exportMap t' result records with
    ⟨hnone, -⟩ | ⟨done, r, rest, f, opened, hsplit, -, -, hdone, hfails, -⟩
  · exact hnone
  · have hr : r ∈ records := by simp [hsplit]
    obtain ⟨bytes, hbytes⟩ := h.exists_writtenBytes hr
    obtain ⟨content, hcontent, hencoded⟩ := writtenBytes_eq_ok.mp hbytes
    obtain ⟨p, old, hplace⟩ := h.exists_place hdone.grows hr
    have hopen :=
      FileTree.openFile_over (hdone.linkFree (h.linkFree hlinks)) (h.hasNull_eq hr) hplace
    rw [storeRecord, hcontent] at hfails
    simp [hopen, hencoded] at hfails

end Trees

section Scans

variable {o : Options} {cwd : String} {t t' : FileTree} {found : List (String × String)}
  {s s' : Scan}

/-- A file that is the same in a tree that has grown is read alike. -/
theorem FileTree.readBytes_grows {path : String} {bytes : List UInt8} (hcwd : Path.Current cwd)
    (hlinks : t.LinkFree) (hgrows : Grows t t') (h : t.readBytes cwd path = .ok bytes)
    (hsame : t'.get? (Path.absoluteComponents cwd path) =
      t.get? (Path.absoluteComponents cwd path)) :
    t'.readBytes cwd path = .ok bytes := by
  have hfile := get?_of_readBytes hcwd hlinks h
  obtain ⟨hnull, p, hplace⟩ := readBytes_eq_ok.mp h
  have hp : p = Path.absoluteComponents cwd path := path_place_eq hcwd hlinks hplace
  rw [← hp] at hfile hsame
  obtain ⟨hpath, hwalks⟩ := place_eq_ok_iff.mp hplace
  have hplace' := place_eq_ok_iff.mpr ⟨hpath, hwalks.grows hgrows (.file bytes) (hsame.trans hfile)⟩
  exact readBytes_eq_ok.mpr ⟨hnull, _, hplace'⟩

/-- All files that are not excluded can be read. -/
theorem Scan.AddsAll.exists_read (h : AddsAll o cwd t s found s') {file : String × String}
    (hfile : file ∈ found) (hkept : isExcluded file.1 o.excludes = false) :
    ∃ source, SourceFile.read t cwd file.1 file.2 = .ok source := by
  induction h with
  | nil s => simp at hfile
  | cons hadds _ ih =>
      rcases List.mem_cons.mp hfile with rfl | hfile
      · cases hadds with
        | excluded hexcluded => simp [hexcluded] at hkept
        | skipped _ hread _ => exact ⟨_, hread⟩
        | taken _ hread _ _ => exact ⟨_, hread⟩
      · exact ih hfile

theorem SourceFile.read_congr {path root : String}
    (h : t'.readBytes cwd (Path.tidy path) = t.readBytes cwd (Path.tidy path)) :
    read t' cwd path root = read t cwd path root := by
  simp only [read, h]

/-- The first pass finds the same in a tree in which the same files are discovered and read. -/
theorem Scan.run_congr (hscan : (run o cwd t).run.value = .ok s)
    (hfound : discover t cwd o.inputs = .ok found) (hfound' : discover t' cwd o.inputs = .ok found)
    (hread : ∀ file ∈ found, isExcluded file.1 o.excludes = false →
      SourceFile.read t' cwd file.1 file.2 = SourceFile.read t cwd file.1 file.2) :
    (run o cwd t').run.value = .ok s := by
  have hadd : ∀ file ∈ found, ∀ s, add o cwd t' s file = add o cwd t s file := by
    rintro ⟨path, root⟩ hfile s
    cases hexcluded : isExcluded path o.excludes with
    | true => simp only [add, hexcluded, if_true]
    | false => simp only [add, hexcluded, hread _ hfile hexcluded]
  obtain ⟨files, hfiles, hfold⟩ := Work.value_bind_eq_ok.mp hscan
  rw [Work.value_result, hfound] at hfiles
  obtain rfl := Except.ok.inj hfiles
  refine Work.value_bind_eq_ok.mpr ⟨found, ?_, ?_⟩
  · rw [Work.value_result, hfound']
  · rw [foldlM_congr hadd]
    exact hfold

/-- The first pass finds the same after files were written, none of them at or below an input. -/
theorem Scan.run_again {encode : Encoder} {exportMap : ExportMap} {records : List FileRecord}
    (hscan : (run o cwd t).run.value = .ok s)
    (hwrites : WritesAll encode o cwd exportMap t records t') (hcwd : Path.Current cwd)
    (ht : t.WellFormed) (hlinks : t.LinkFree) (hcurrent : t.HasCurrent cwd)
    (hapart : ∀ r ∈ records, ∀ input ∈ o.inputs, ¬Path.absoluteComponents cwd input <+:
      Path.absoluteComponents cwd r.outputPath) :
    (run o cwd t').run.value = .ok s := by
  obtain ⟨found, hfound, hall⟩ := exists_addsAll hscan
  have hadds : ∀ input ∈ o.inputs, AddsDirectories (Path.absoluteComponents cwd input) t t' :=
    fun input hinput => hwrites.addsDirectories hcwd hlinks fun r hr => hapart r hr input hinput
  have hfound' :=
    discover_of_addsDirectories hcwd.absolute ht (hwrites.wellFormed ht hlinks hcurrent) hlinks
    (hwrites.linkFree hlinks) hadds hfound
  refine run_congr hscan hfound hfound' fun file hfile hkept => ?_
  -- A file that was read stands at or below an input, so it is still the same.
  obtain ⟨source, hread⟩ := hall.exists_read hfile hkept
  obtain ⟨-, -, -, bytes, hbytes, -⟩ := SourceFile.read_eq_ok hread
  obtain ⟨input, hinput, cs, hpath, hbelow⟩ :=
    exists_plain_of_mem_discover hcwd.absolute ht hlinks hfound hfile
  have hplace : Path.absoluteComponents cwd (Path.tidy file.1) = cs := by
    rw [Path.absoluteComponents_tidy hcwd.absolute, hpath.absoluteComponents_eq hcwd.absolute]
  have hold := FileTree.get?_of_readBytes hcwd hlinks hbytes
  have hsame : t'.get? (Path.absoluteComponents cwd (Path.tidy file.1)) =
      t.get? (Path.absoluteComponents cwd (Path.tidy file.1)) := by
    rw [hplace] at hold ⊢
    rcases hadds input hinput cs hbelow with hsame | ⟨hnone, -⟩
    · exact hsame
    · simp [hold] at hnone
  apply SourceFile.read_congr
  rw [hbytes, FileTree.readBytes_grows hcwd hlinks hwrites.grows hbytes hsame]

end Scans

/-- A conversion that finds what the last one found, and can store it, leaves the converter as it
is. -/
theorem Converter.convert_again {encode : Encoder} {c : Converter} {cwd : String} {t : FileTree}
    {s : Scan} (hscan : (Scan.run c.options cwd t).run.value = .ok s) (hfiles : c.files = s.files)
    (hmap : c.exportMap = (ExportMap.build (s.files.map (·.2))).value)
    (hresult : c.result = some ((s.result c.exportMap).extended (s.files.map (·.2))))
    (hstored : (storeAll encode c.options cwd c.exportMap t (s.result c.exportMap)
      (s.files.map (·.2))).failure = none) :
    let after := c.convertWith encode cwd t
    after.failure = none ∧ after.converter = c ∧
      WritesAll encode c.options cwd c.exportMap t (s.files.map (·.2)) after.tree := by
  rcases c.convertWith_cases encode cwd t with
    ⟨f, hfails, -⟩ | ⟨s', hscan', hfailure, htree, hconverter⟩
  · rw [hscan] at hfails
    cases hfails
  · rw [hscan] at hscan'
    obtain rfl := Except.ok.inj hscan'
    rw [← hmap] at hfailure htree hconverter
    obtain ⟨hsame, hwrites⟩ := writesAll_of_failure_eq_none hstored
    simp only [hfailure, htree, hconverter]
    refine ⟨hstored, ?_, hwrites⟩
    simp only [hstored, hsame, ← hresult]
    rw [← hfiles]

/-- In a well-formed tree without links, a conversion without a failure that stores nothing at or
below its inputs can be repeated: the second conversion succeeds, leaves the converter as it is, and
no entry of the tree differs. -/
theorem convert_twice (c : Converter) (cwd : String) (t : FileTree) (hcwd : Path.Current cwd)
    (ht : t.WellFormed) (hlinks : t.LinkFree) (hcurrent : t.HasCurrent cwd)
    (hrun : (c.convert cwd t).failure = none)
    (hapart : ∀ f ∈ (c.convert cwd t).converter.files, ∀ input ∈ c.options.inputs,
      ¬Path.absoluteComponents cwd input <+: Path.absoluteComponents cwd f.2.outputPath) :
    let first := c.convert cwd t
    let second := first.converter.convert cwd first.tree
    second.failure = none ∧ second.converter = first.converter ∧
      ∀ q, second.tree.get? q = first.tree.get? q := by
  unfold Converter.convert at hrun hapart ⊢
  obtain ⟨s, hscan, hconverter, hwrites⟩ := Converter.exists_passes hrun
  generalize c.convertWith utf8 cwd t = first at hwrites hapart hconverter ⊢
  obtain ⟨converter, tree, failure, notices⟩ := first
  subst hconverter
  have houtputs : ∀ r ∈ s.files.map (·.2), ∀ input ∈ c.options.inputs,
      ¬Path.absoluteComponents cwd input <+: Path.absoluteComponents cwd r.outputPath :=
    List.forall_mem_map.mpr hapart
  have hscan' := Scan.run_again hscan hwrites hcwd ht hlinks hcurrent houtputs
  obtain ⟨hnone, hsame, hwrites'⟩ := Converter.convert_again (c := { c with
    files := s.files
    exportMap := (ExportMap.build (s.files.map (·.2))).value
    result := some ((s.result (ExportMap.build (s.files.map (·.2))).value).extended
      (s.files.map (·.2))) })
    hscan' rfl rfl rfl (hwrites.failure_again hlinks)
  exact ⟨hnone, hsame, hwrites.get?_again hwrites' hcwd hlinks⟩

/-- A script and a note in one directory. -/
def repeatedTree : FileTree where
  entries := [(["work"], .directory), (["work", "src"], .directory),
    (["work", "src", "a.js"], .file (Text.encodeUtf8 "NS.A = function () \x7b\x7d".toList)),
    (["work", "src", "note.txt"], .file [110])]

/-- A converter that stores the note in the place of the script, by a way that leads through a new
directory. -/
def repeatedConverter : Converter where
  options := {
    inputs := ["src/a.js", "src/note.txt"]
    excludes := []
    output := "out"
    edgeCases := [("note", { outputOverride := some "../src/new/../../out/a.js" })]
    banner := "!"
    namespaceName := "NS" }

theorem convert_twice_shared_output :
    let first := repeatedConverter.convert "/work" repeatedTree
    let second := first.converter.convert "/work" first.tree
    first.failure = none ∧ second.failure = none ∧ second.converter = first.converter ∧
      first.tree.get? ["work", "src", "new"] = some .directory ∧
      second.tree.get? ["work", "out", "a.js"] = some (.file [33, 110]) := by
  have hlinks : repeatedTree.LinkFree := FileTree.linkFree_of_entries (by simp [repeatedTree])
  have htree : repeatedTree.WellFormed := FileTree.wellFormed_of_entries (by decide) (by decide)
  have hdone : (repeatedConverter.convert "/work" repeatedTree).failure = none ∧
      ((repeatedConverter.convert "/work" repeatedTree).converter.files.map fun f =>
        Path.absoluteComponents "/work" f.2.outputPath) =
          [["work", "out", "a.js"], ["work", "out", "a.js"]] ∧
      (repeatedConverter.convert "/work" repeatedTree).tree.get? ["work", "src", "new"] =
        some .directory ∧
      (repeatedConverter.convert "/work" repeatedTree).tree.get? ["work", "out", "a.js"] =
        some (.file [33, 110]) := by
    decide +kernel
  obtain ⟨hrun, hpaths, hnew, hfile⟩ := hdone
  have hinputs : ∀ input ∈ repeatedConverter.options.inputs,
      ¬Path.absoluteComponents "/work" input <+: ["work", "out", "a.js"] := by
    decide +kernel
  have hapart : ∀ f ∈ (repeatedConverter.convert "/work" repeatedTree).converter.files,
      ∀ input ∈ repeatedConverter.options.inputs,
        ¬Path.absoluteComponents "/work" input <+:
          Path.absoluteComponents "/work" f.2.outputPath := by
    intro f hf input hinput
    have hpath :=
      List.mem_map_of_mem (f := fun f => Path.absoluteComponents "/work" f.2.outputPath) hf
    rw [hpaths, List.mem_pair, or_self] at hpath
    rw [hpath]
    exact hinputs input hinput
  obtain ⟨hagain, hsame, hget⟩ :=
    convert_twice repeatedConverter "/work" repeatedTree (by decide +kernel) htree hlinks
    rfl hrun hapart
  exact ⟨hrun, hagain, hsame, hnew, (hget _).trans hfile⟩

end ScriptModules
