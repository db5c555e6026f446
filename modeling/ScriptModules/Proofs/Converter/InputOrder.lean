import ScriptModules.Proofs.Converter.Effect
import ScriptModules.Proofs.Converter.Links

/-!
# The order of the inputs

The order in which files are discovered fixes the order of the records, of the claims to exported
names and of the writes. Without conflicts none of this can be seen in what a conversion leaves.
Main statement: if no two files share a base name, no name is exported by two of them and all output
paths differ, then a conversion of the same inputs in another order leaves the same tree, gives
every name the same owner and counts the same files.
-/

namespace ScriptModules

section Owners

variable {m m' : ExportMap}

/-- Where at most one item passes a test, it is found in any order. -/
theorem find?_eq_of_perm {α : Type} {p : α → Bool} {l l' : List α} (hperm : l.Perm l')
    (hunique : ∀ a ∈ l, ∀ b ∈ l, p a = true → p b = true → a = b) : l.find? p = l'.find? p := by
  cases h : l.find? p with
  | none =>
      symm
      rw [List.find?_eq_none] at h ⊢
      exact fun a ha => h a (hperm.mem_iff.mpr ha)
  | some a =>
      have ha : a ∈ l := List.mem_of_find?_eq_some h
      have hfound : (l'.find? p).isSome = true := by
        rw [List.find?_isSome]
        exact ⟨a, hperm.mem_iff.mp ha, List.find?_some h⟩
      obtain ⟨b, hb⟩ := Option.isSome_iff_exists.mp hfound
      have hmem : b ∈ l := hperm.mem_iff.mpr (List.mem_of_find?_eq_some hb)
      rw [hb, hunique a ha b hmem (List.find?_some h) (List.find?_some hb)]

/-- Where no name is exported by two files, their order does not matter to the owners. -/
theorem owner?_build_of_perm {records records' : List FileRecord} (hperm : records.Perm records')
    (hclaims : ∀ r ∈ records, ∀ s ∈ records, ∀ name, r.offers name = true →
      s.offers name = true → r = s)
    (name : String) :
    (ExportMap.build records).value.owner? name = (ExportMap.build records').value.owner? name := by
  rw [ExportMap.owner?_build, ExportMap.owner?_build]
  rw [find?_eq_of_perm hperm fun r hr s hs => hclaims r hr s hs name]

theorem specifierOf_congr (h : ∀ name, m.owner? name = m'.owner? name) (cwd importer : String)
    (i : Import) :
    specifierOf cwd importer m i = specifierOf cwd importer m' i := by
  cases i with
  | explicit item specifier => rfl
  | symbol item => rw [specifierOf, specifierOf, h]

theorem groupImports_congr (h : ∀ name, m.owner? name = m'.owner? name) (cwd importer : String)
    (imports : List Import) (groups : ImportGroups) :
    groupImports cwd importer m imports groups = groupImports cwd importer m' imports groups := by
  induction imports generalizing groups with
  | nil => rfl
  | cons i imports ih => simp only [groupImports, specifierOf_congr h, ih]

/-- The bytes of a file depend on the export map through the owners of names only. -/
theorem writtenBytes_congr (h : ∀ name, m.owner? name = m'.owner? name) (encode : Encoder)
    (o : Options) (cwd : String) (r : FileRecord) :
    writtenBytes encode o cwd m r = writtenBytes encode o cwd m' r := by
  have himports (imports : List Import) : importBlock cwd r.outputPath m imports =
      importBlock cwd r.outputPath m' imports := by
    rw [importBlock, importBlock, groupImports_congr h]
  simp only [writtenBytes, contentOf, convertScript, himports]

end Owners

section Discovery

variable {cwd : String} {t : FileTree} {inputs inputs' : List String}
  {found found' : List (String × String)}

/-- Inputs in another order give the same files in another order. -/
theorem discover_perm (hperm : inputs.Perm inputs') (h : discover t cwd inputs = .ok found)
    (h' : discover t cwd inputs' = .ok found') : found.Perm found' := by
  obtain ⟨lists, hlists, h⟩ := bind_eq_ok.mp h
  obtain ⟨lists', hlists', h'⟩ := bind_eq_ok.mp h'
  obtain rfl := Except.ok.inj h
  obtain rfl := Except.ok.inj h'
  apply List.Perm.flatten
  rw [eq_filterMap_of_mapM hlists, eq_filterMap_of_mapM hlists']
  exact hperm.filterMap _

end Discovery

section Trees

variable {encode : Encoder} {o o' : Options} {cwd : String} {exportMap exportMap' : ExportMap}
  {t after after' : FileTree} {records records' : List FileRecord}

/-- Without links, files at different places can be written in any order. -/
theorem WritesAll.get?_eq_of_perm (h : WritesAll encode o cwd exportMap t records after)
    (h' : WritesAll encode o' cwd exportMap' t records' after') (hperm : records.Perm records')
    (hcwd : Path.Current cwd) (ht : t.LinkFree)
    (hdistinct : ((records.map (·.outputPath)).map (Path.absoluteComponents cwd)).Nodup)
    (hbytes : ∀ r, writtenBytes encode o cwd exportMap r = writtenBytes encode o' cwd exportMap' r)
    (q : List String) : after.get? q = after'.get? q := by
  have hdistinct' : ((records'.map (·.outputPath)).map (Path.absoluteComponents cwd)).Nodup :=
    ((hperm.map _).map _).nodup_iff.mp hdistinct
  by_cases hfile : ∃ r ∈ records, Path.absoluteComponents cwd r.outputPath = q
  · obtain ⟨r, hr, rfl⟩ := hfile
    obtain ⟨bytes, hfirst, hq⟩ :=
      h.leavesOutputs.get?_absolute hcwd ht (by rwa [List.append_nil]) hr
    obtain ⟨bytes', hsecond, hq'⟩ :=
      h'.leavesOutputs.get?_absolute hcwd ht (by rwa [List.append_nil]) (hperm.mem_iff.mp hr)
    rw [← hbytes, hfirst, Except.ok.injEq] at hsecond
    rw [hq, hq', hsecond]
  · have hne : ∀ r ∈ records, Path.absoluteComponents cwd r.outputPath ≠ q :=
      fun r hr hq => hfile ⟨r, hr, hq⟩
    by_cases hroute : ∃ r ∈ records, q ∈ Path.route cwd r.outputPath
    · obtain ⟨r, hr, hq⟩ := hroute
      rw [h.get?_route hcwd ht hr hq (hne r hr),
        h'.get?_route hcwd ht (hperm.mem_iff.mp hr) hq (hne r hr)]
    · have hfree : ∀ r ∈ records, q ∉ Path.route cwd r.outputPath :=
        fun r hr hq => hroute ⟨r, hr, hq⟩
      rw [h.get?_eq hcwd ht hne hfree]
      exact (h'.get?_eq hcwd ht (fun r hr => hne r (hperm.mem_iff.mpr hr))
        fun r hr => hfree r (hperm.mem_iff.mpr hr)).symm

end Trees

section Passes

variable {o : Options} {cwd : String} {t : FileTree} {inputs : List String}
  {found found' : List (String × String)} {s s' : Scan}

/-- Where no two files share a base name, another order of the inputs gives the same records in
another order, and the same counts. -/
theorem Scan.AddsAll.perm (h : AddsAll o cwd t {} found s)
    (h' : AddsAll { o with inputs := inputs } cwd t {} found' s') (hperm : found.Perm found')
    (hnames : ((kept o found).map fun file => SourceFile.baseNameOf file.1).Nodup) :
    s.files.Perm s'.files ∧ s.excluded = s'.excluded ∧ s.skipped = s'.skipped := by
  have hkept : (kept o found).Perm (kept o found') := hperm.filter _
  have hnames' : ((kept o found').map fun file => SourceFile.baseNameOf file.1).Nodup :=
    (hkept.map _).nodup_iff.mp hnames
  obtain ⟨hfiles, hexcluded, hskipped⟩ := h.of_nodup hnames
  obtain ⟨hfiles', hexcluded', hskipped'⟩ := h'.of_nodup hnames'
  refine ⟨?_, ?_, hskipped.trans hskipped'.symm⟩
  · rw [hfiles, hfiles']
    exact hkept.filterMap _
  · rw [hexcluded, hexcluded', hperm.countP_eq]

/-- Records in another order, and maps with the same owners, are counted alike. -/
theorem tally_extended_eq {m m' : ExportMap} {records records' : List FileRecord}
    (hperm : records.Perm records') (hexcluded : s.excluded = s'.excluded)
    (hskipped : s.skipped = s'.skipped) (hlength : m.length = m'.length) :
    ((s.result m).extended records).tally = ((s'.result m').extended records').tally := by
  simp only [Result.extended, Scan.result, hperm.countP_eq, hexcluded, hskipped, hlength]

end Passes

/-- If no two files that are not excluded share a base name, no name is exported by two records, and
the normalised output paths differ, then two conversions without a failure that differ in the order
of their inputs leave the same tree, give every name the same owner and count the same. -/
theorem convert_inputs_perm (c c' : Converter) (cwd : String) (t : FileTree) (inputs : List String)
    (hcwd : Path.Current cwd) (hlinks : t.LinkFree) (hperm : c.options.inputs.Perm inputs)
    (hoptions : c'.options = { c.options with inputs := inputs })
    (hrun : (c.convert cwd t).failure = none) (hrun' : (c'.convert cwd t).failure = none)
    (hnames : ∀ found, discover t cwd c.options.inputs = .ok found →
      ((Scan.kept c.options found).map fun file => SourceFile.baseNameOf file.1).Nodup)
    (hclaims : ∀ f ∈ (c.convert cwd t).converter.files, ∀ g ∈ (c.convert cwd t).converter.files,
      ∀ name, f.2.offers name = true → g.2.offers name = true → f.2 = g.2)
    (hdistinct : ((c.convert cwd t).converter.files.map fun f =>
      Path.absoluteComponents cwd f.2.outputPath).Nodup) :
    (∀ q, (c.convert cwd t).tree.get? q = (c'.convert cwd t).tree.get? q) ∧
    (∀ name, (c.convert cwd t).converter.exportMap.owner? name =
      (c'.convert cwd t).converter.exportMap.owner? name) ∧
    ∃ result result', (c.convert cwd t).converter.result = some result ∧
      (c'.convert cwd t).converter.result = some result' ∧ result.tally = result'.tally := by
  unfold Converter.convert at hrun hrun' hclaims hdistinct ⊢
  obtain ⟨s, hscan, hconverter, hwrites⟩ := Converter.exists_passes hrun
  obtain ⟨s', hscan', hconverter', hwrites'⟩ := Converter.exists_passes hrun'
  rw [hoptions] at hscan' hwrites'
  obtain ⟨found, hfound, hadds⟩ := Scan.exists_addsAll hscan
  obtain ⟨found', hfound', hadds'⟩ := Scan.exists_addsAll hscan'
  rw [hconverter] at hclaims hdistinct
  have hfiles := hadds.perm hadds' (discover_perm hperm hfound hfound') (hnames found hfound)
  have hrecords : (s.files.map (·.2)).Perm (s'.files.map (·.2)) := hfiles.1.map _
  have howners := owner?_build_of_perm hrecords
    (List.forall_mem_map.mpr fun f hf => List.forall_mem_map.mpr fun g hg => hclaims f hf g hg)
  refine ⟨?_, ?_, ?_⟩
  · refine hwrites.get?_eq_of_perm hwrites' hrecords hcwd hlinks
      (by simpa [Function.comp_def] using hdistinct) fun r => ?_
    exact writtenBytes_congr howners utf8 c.options cwd r
  · rw [hconverter, hconverter']
    exact howners
  · rw [hconverter, hconverter']
    refine ⟨_, _, rfl, rfl, tally_extended_eq hrecords hfiles.2.1 hfiles.2.2 ?_⟩
    exact ExportMap.length_eq_of_owner? (ExportMap.nodup_build _) (ExportMap.nodup_build _) howners

/-- The converter of both linked scripts with its inputs the other way round. -/
def reversedConverter : Converter where
  options := { linkedConverter.options with inputs := ["b.js", "a.js"] }

theorem convert_inputs_perm_linked :
    (linkedConverter.convert "/work" linkedTree).failure = none ∧
      (reversedConverter.convert "/work" linkedTree).failure = none ∧
      (linkedConverter.convert "/work" linkedTree).tree.get? ["work", "out", "sub", "b.js"] =
        (reversedConverter.convert "/work" linkedTree).tree.get? ["work", "out", "sub", "b.js"] ∧
      (reversedConverter.convert "/work" linkedTree).converter.exportMap.owner? "A" =
        some "out/a.js" := by
  have hdone : (linkedConverter.convert "/work" linkedTree).failure = none ∧
      (linkedConverter.convert "/work" linkedTree).converter.files =
        [("a", exportingRecord), ("b", importingRecord)] ∧
      (linkedConverter.convert "/work" linkedTree).converter.exportMap =
        [("A", "out/a.js"), ("b", "out/sub/b.js")] ∧
      (reversedConverter.convert "/work" linkedTree).failure = none := by
    decide +kernel
  obtain ⟨hrun, hfiles, hmap, hrun'⟩ := hdone
  have hlinks : linkedTree.LinkFree := FileTree.linkFree_of_entries (by simp [linkedTree])
  have hfound : discover linkedTree "/work" ["a.js", "b.js"] =
      .ok [("/work/a.js", "/work/a.js"), ("/work/b.js", "/work/b.js")] := by decide +kernel
  have hnames : ∀ found, discover linkedTree "/work" ["a.js", "b.js"] = .ok found →
      ((Scan.kept linkedConverter.options found).map fun file =>
        SourceFile.baseNameOf file.1).Nodup := by
    intro found hfound'
    obtain rfl := Except.ok.inj (hfound.symm.trans hfound')
    decide +kernel
  have hclaims : ∀ f ∈ (linkedConverter.convert "/work" linkedTree).converter.files,
      ∀ g ∈ (linkedConverter.convert "/work" linkedTree).converter.files, ∀ name,
        f.2.offers name = true → g.2.offers name = true → f.2 = g.2 := by
    have hown {r : FileRecord} {own name : String} (h : r.exports.map (·.publicName) = [own])
        (hoffers : r.offers name = true) : own = name := by
      rw [FileRecord.offers, Bool.and_eq_true, List.any_eq_true] at hoffers
      obtain ⟨-, e, he, hname⟩ := hoffers
      have hmem : e.publicName ∈ r.exports.map (·.publicName) := List.mem_map_of_mem he
      rw [h, eq_of_beq hname] at hmem
      exact (List.mem_singleton.mp hmem).symm
    rw [hfiles]
    intro f hf g hg name hfname hgname
    rcases List.mem_pair.mp hf with rfl | rfl
    · rcases List.mem_pair.mp hg with rfl | rfl
      · rfl
      · exact absurd ((hown rfl hfname).trans (hown rfl hgname).symm) (by decide)
    · rcases List.mem_pair.mp hg with rfl | rfl
      · exact absurd ((hown rfl hfname).trans (hown rfl hgname).symm) (by decide)
      · rfl
  obtain ⟨htree, howner, -⟩ :=
    convert_inputs_perm linkedConverter reversedConverter "/work" linkedTree ["b.js", "a.js"]
    (by decide +kernel) hlinks (.swap _ _ _) rfl hrun hrun' hnames hclaims
      (by rw [hfiles]; decide +kernel)
  refine ⟨hrun, hrun', htree _, ?_⟩
  rw [← howner, hmap]
  rfl

end ScriptModules
