import ScriptModules.Proofs.Converter.Scan
import ScriptModules.Proofs.Converter.Storing

/-!
# What a conversion leaves in the file tree

Everything is read before anything is written, so the files that a conversion leaves are made from
the tree as it was before, even where outputs stand in the place of inputs. Main statement: after a
conversion without a failure, each output path holds the banner and the bytes of its file, or the
module that its script becomes; every other file is as it was, and new directories are only those
above the outputs.
-/

namespace ScriptModules

/-- The bytes are what a file is stored as: the module that a script becomes, or the banner and the
bytes that the file held. -/
def FileRecord.StoredAs (o : Options) (cwd : String) (exportMap : ExportMap) (r : FileRecord)
    (old new : List UInt8) : Prop :=
  if r.source.isScript then
    r.source.text = SourceFile.scriptText old ∧
      ∃ text, r.BecomesModule o cwd exportMap text ∧ new = Text.encodeUtf8 text.toList
  else new = Text.encodeUtf8 o.banner.toList ++ old

section Content

variable {o : Options} {cwd path : String} {exportMap : ExportMap} {t : FileTree} {r : FileRecord}

/-- Without links, the bytes that are read are those of the file at the normalised path. -/
theorem FileTree.get?_of_readBytes (hcwd : Path.Current cwd) (ht : t.LinkFree) {bytes : List UInt8}
    (h : t.readBytes cwd path = .ok bytes) :
    t.get? (Path.absoluteComponents cwd path) = some (.file bytes) := by
  obtain ⟨-, p, hplace⟩ := readBytes_eq_ok.mp h
  obtain rfl : Path.absoluteComponents cwd path = p := (path_place_eq hcwd ht hplace).symm
  simpa [Stands] using (place_eq_ok_iff.mp hplace).2.stands

/-- The content of a record is made from the bytes that the tree holds at the path of its file. -/
theorem FileRecord.ReadFrom.storedAs (hr : r.ReadFrom o cwd t) (hcwd : Path.Current cwd)
    (ht : t.LinkFree) {new : List UInt8} (h : writtenBytes utf8 o cwd exportMap r = .ok new) :
    ∃ old, t.get? (Path.absoluteComponents cwd r.source.path) = some (.file old) ∧
      r.StoredAs o cwd exportMap old new := by
  obtain ⟨-, -, -, old, hold, htext, hraw⟩ := SourceFile.read_eq_ok hr.read
  have hfile := FileTree.get?_of_readBytes hcwd ht hold
  rw [Path.absoluteComponents_tidy hcwd.absolute] at hfile
  refine ⟨old, hfile, ?_⟩
  rw [StoredAs]
  cases hscript : r.source.isScript with
  | true =>
      obtain ⟨text, hmodule, hbytes⟩ := exists_convertScript hscript h
      rw [if_pos rfl]
      exact ⟨htext hscript, text, convertScript_eq_ok_iff.mp hmodule, (Except.ok.inj hbytes).symm⟩
  | false =>
      obtain ⟨banner, hbanner, rfl⟩ := exists_banner hscript h
      obtain rfl := Except.ok.inj hbanner
      rw [if_neg (by simp), hraw hscript]

end Content

/-- After a conversion without a failure, in a tree without links and with different normalised
output paths: every record is made from the tree before the conversion, and so is the content at its
output path; a file at any other path is there exactly if it was there before; a new directory is
one to which a leading part of an output path leads. -/
theorem convert_effect (c : Converter) (cwd : String) (t : FileTree) (hcwd : Path.Current cwd)
    (hlinks : t.LinkFree) (hrun : (c.convert cwd t).failure = none)
    (hdistinct : ((c.convert cwd t).converter.files.map fun f =>
      Path.absoluteComponents cwd f.2.outputPath).Nodup) :
    let files := (c.convert cwd t).converter.files
    let after := (c.convert cwd t).tree
    (∀ f ∈ files, f.2.ReadFrom c.options cwd t ∧ ∃ old new,
      t.get? (Path.absoluteComponents cwd f.2.source.path) = some (.file old) ∧
      after.get? (Path.absoluteComponents cwd f.2.outputPath) = some (.file new) ∧
      f.2.StoredAs c.options cwd (ExportMap.build (files.map (·.2))).value old new) ∧
    (∀ q, (∀ f ∈ files, Path.absoluteComponents cwd f.2.outputPath ≠ q) →
      ∀ bytes, after.get? q = some (.file bytes) ↔ t.get? q = some (.file bytes)) ∧
    ∀ q, after.get? q = some .directory → t.get? q ≠ some .directory →
      ∃ f ∈ files, q ∈ Path.route cwd f.2.outputPath := by
  unfold Converter.convert at hrun hdistinct ⊢
  obtain ⟨s, hscan, hconverter, hwrites⟩ := Converter.exists_passes hrun
  obtain ⟨found, -, hadds⟩ := Scan.exists_addsAll hscan
  rw [hconverter] at hdistinct ⊢
  generalize (c.convertWith utf8 cwd t).tree = after at hwrites ⊢
  have hread : ∀ f ∈ s.files, f.2.ReadFrom c.options cwd t := hadds.readFrom (by simp)
  have houtputs := hwrites.leavesOutputs
  refine ⟨fun f hf => ⟨hread f hf, ?_⟩, fun q hq => ?_, fun q hnew hold => ?_⟩
  · obtain ⟨new, hcontent, hnew⟩ := houtputs.get?_absolute hcwd hlinks
      (by simpa [Function.comp_def] using hdistinct) (List.mem_map_of_mem hf)
    obtain ⟨old, hold, hstored⟩ := (hread f hf).storedAs hcwd hlinks hcontent
    exact ⟨old, new, hold, hnew, hstored⟩
  · refine houtputs.frame_absolute hcwd hlinks ?_
    rw [List.append_nil, List.map_map]
    exact List.forall_mem_map.mpr hq
  · rcases hwrites.get?_cases (.refl after) q with ⟨r, hr, hlanding⟩ | hsame | ⟨-, -, hroute⟩
    · obtain ⟨p, bytes, hp, hfile⟩ := hwrites.exists_landing (.refl after) hr
      obtain rfl := Option.some.inj (hp.symm.trans hlanding)
      simp [hfile] at hnew
    · exact absurd (hsame.symm.trans hnew) hold
    · obtain ⟨r, hr, hq⟩ := hroute hlinks
      obtain ⟨f, hf, rfl⟩ := List.mem_map.mp hr
      exact ⟨f, hf, hq⟩

/-- A script and a note in one directory, and a file outside it. -/
def inPlaceTree : FileTree where
  entries := [(["work"], .directory), (["work", "src"], .directory),
    (["work", "src", "a.js"], .file (Text.encodeUtf8 "NS.A = function () \x7b\x7d".toList)),
    (["work", "src", "note.txt"], .file [110]),
    (["work", "keep.txt"], .file [107])]

/-- A converter that stores the script in its own place, and the note in a new directory. -/
def inPlaceConverter : Converter where
  options := {
    inputs := ["src/a.js", "src/note.txt"]
    excludes := []
    output := "src"
    edgeCases := [("note", { outputOverride := some "sub/note.txt" })]
    banner := "!"
    namespaceName := "NS" }

theorem convert_effect_inPlace :
    let files := (inPlaceConverter.convert "/work" inPlaceTree).converter.files
    let after := (inPlaceConverter.convert "/work" inPlaceTree).tree
    inPlaceTree.LinkFree ∧ (inPlaceConverter.convert "/work" inPlaceTree).failure = none ∧
      (∃ f ∈ files, f.2.source.isScript = true ∧
        ∃ text, f.2.BecomesModule inPlaceConverter.options "/work" [("A", "src/a.js")] text ∧
          after.get? ["work", "src", "a.js"] = some (.file (Text.encodeUtf8 text.toList))) ∧
      after.get? ["work", "src", "sub", "note.txt"] = some (.file [33, 110]) ∧
      after.get? ["work", "src", "note.txt"] = some (.file [110]) ∧
      ∃ f ∈ files, ["work", "src", "sub"] ∈ Path.route "/work" f.2.outputPath := by
  intro files after
  have hlinks : inPlaceTree.LinkFree := FileTree.linkFree_of_entries (by simp [inPlaceTree])
  have hdone : (inPlaceConverter.convert "/work" inPlaceTree).failure = none ∧
      (files.map fun f => (f.2.source.path, f.2.outputPath, f.2.source.isScript)) =
        [("/work/src/a.js", "src/a.js", true), ("/work/src/note.txt", "src/sub/note.txt", false)] ∧
      (files.map fun f => Path.absoluteComponents "/work" f.2.outputPath) =
        [["work", "src", "a.js"], ["work", "src", "sub", "note.txt"]] ∧
      (ExportMap.build (files.map (·.2))).value = [("A", "src/a.js")] ∧
      after.get? ["work", "src", "sub"] = some .directory := by decide +kernel
  obtain ⟨hrun, hfiles, hpaths, hmap, hsub⟩ := hdone
  obtain ⟨hstored, hframe, hnew⟩ :=
    convert_effect inPlaceConverter "/work" inPlaceTree (by decide +kernel) hlinks hrun
    (by rw [hpaths]; decide)
  refine ⟨hlinks, hrun, ?_, ?_, ?_, hnew _ hsub (by decide)⟩
  · obtain ⟨f, hf, hsame⟩ := List.mem_map.mp (hfiles ▸ List.mem_cons_self : _ ∈ files.map _)
    obtain ⟨-, hsame⟩ := Prod.mk.inj hsame
    obtain ⟨houtput, hscript⟩ := Prod.mk.inj hsame
    obtain ⟨-, old, new, -, hnew, hbecomes⟩ := hstored f hf
    rw [FileRecord.StoredAs, if_pos hscript] at hbecomes
    obtain ⟨-, text, hmodule, rfl⟩ := hbecomes
    rw [houtput] at hnew
    exact ⟨f, hf, hscript, text, hmap ▸ hmodule, hnew⟩
  · obtain ⟨f, hf, hsame⟩ :=
      List.mem_map.mp (hfiles ▸ List.mem_cons_of_mem _ List.mem_cons_self : _ ∈ files.map _)
    obtain ⟨hpath, hsame⟩ := Prod.mk.inj hsame
    obtain ⟨houtput, hscript⟩ := Prod.mk.inj hsame
    obtain ⟨-, old, new, hold, hnew, hbecomes⟩ := hstored f hf
    rw [FileRecord.StoredAs, if_neg (by simp [hscript])] at hbecomes
    rw [hpath] at hold
    rw [houtput] at hnew
    have hnote : inPlaceTree.get? (Path.absoluteComponents "/work" "/work/src/note.txt") =
        some (.file [110]) := by
      decide +kernel
    obtain rfl := Entry.file.inj (Option.some.inj (hnote.symm.trans hold))
    subst hbecomes
    exact hnew
  · refine (hframe _ ?_ _).mpr (by decide)
    intro f hf heq
    have hmem :=
      List.mem_map_of_mem (f := fun f => Path.absoluteComponents "/work" f.2.outputPath) hf
    rw [hpaths, heq] at hmem
    simp at hmem

end ScriptModules
