import ScriptModules.Proofs.Converter.Storing
import ScriptModules.Proofs.ExportMap
import ScriptModules.Proofs.Import.Groups
import ScriptModules.Proofs.Path.Specifier

/-!
# Links between converted files

Every import that a conversion writes leads to a file of the same conversion: the first script, in
the order of discovery, that exports the imported name. A script never imports from itself, unless
an edge case asks for imports.
-/

namespace ScriptModules

variable {cwd importer item specifier : String} {files : FileMap}

/-- The first file, in order of discovery, that is a script and exports the name. -/
def FileMap.exporter? (files : FileMap) (name : String) : Option (String × FileRecord) :=
  files.find? fun f => f.2.offers name

theorem owner?_build_files (files : FileMap) (name : String) :
    (ExportMap.build (files.map (·.2))).value.owner? name =
      (files.exporter? name).map (·.2.outputPath) := by
  rw [ExportMap.owner?_build, List.find?_map, Option.map_map]
  rfl

/-- The specifier of a symbol leads to the first script that exports it. -/
theorem exists_exporter (hcwd : Path.isAbsolute cwd = true)
    (hslash : ∀ f ∈ files, Path.isAbsolute f.2.outputPath = false → '\\' ∉ cwd.toList)
    (hpaths : ∀ f ∈ files, '\\' ∉ f.2.outputPath.toList)
    (h : specifierOf cwd importer (ExportMap.build (files.map (·.2))).value (.symbol item) =
      .ok (some specifier)) :
    ∃ key s, files.exporter? (importedName item) = some (key, s) ∧
      Path.LeadsTo cwd importer specifier s.outputPath := by
  rw [specifierOf, owner?_build_files] at h
  cases hfind : files.exporter? (importedName item) with
  | none => simp [hfind, pure, Except.pure] at h
  | some f =>
      obtain ⟨key, s⟩ := f
      rw [hfind] at h
      obtain ⟨found, hfound, hspecifier⟩ := bind_eq_ok.mp h
      obtain rfl := Option.some.inj (Except.ok.inj hspecifier)
      have hmem : (key, s) ∈ files := List.mem_of_find?_eq_some hfind
      exact ⟨key, s, rfl,
        Path.leadsTo_relativeSpecifier hcwd (hslash _ hmem) (hpaths _ hmem) hfound⟩

/-- A script that does not export a name is not the file from which it imports it. -/
theorem exporter_ne {key : String} {r s : FileRecord} {name : String}
    (hexporter : files.exporter? name = some (key, s))
    (hown : name ∉ r.exports.map (·.publicName)) : s ≠ r := by
  rintro rfl
  have hoffers : s.offers name = true :=
    List.find?_some (p := fun f : String × FileRecord => f.2.offers name) hexporter
  rw [FileRecord.offers, Bool.and_eq_true, List.any_eq_true] at hoffers
  obtain ⟨-, e, he, hname⟩ := hoffers
  exact hown (List.mem_map.mpr ⟨e, he, by simpa using hname⟩)

/-- Every import that a conversion writes for a plain requirement leads to the first script that
exports the imported name, and not to the importing file itself unless an edge case asks for
imports. Backslashes of the current directory count only where an output path is relative. -/
theorem imports_lead_to_exporters (c : Converter) (cwd : String) (t : FileTree)
    (hcwd : Path.isAbsolute cwd = true)
    (hslash : ∀ f ∈ (c.convert cwd t).converter.files,
      Path.isAbsolute f.2.outputPath = false → '\\' ∉ cwd.toList)
    (hrun : (c.convert cwd t).failure = none)
    (hdistinct : ((c.convert cwd t).converter.files.map (·.2.outputPath)).Nodup)
    (hpaths : ∀ f ∈ (c.convert cwd t).converter.files, '\\' ∉ f.2.outputPath.toList)
    (key : String) (r : FileRecord) (hr : (key, r) ∈ (c.convert cwd t).converter.files)
    (hscript : r.source.isScript = true) :
    let files := (c.convert cwd t).converter.files
    let exportMap := (c.convert cwd t).converter.exportMap
    let edgeCase := c.options.edgeCaseFor r.source.baseName
    let imports := (resolveImports c.options.namespaceName r.exports edgeCase r.source.text).value
    ∃ groups body exportText,
      (convertScript c.options cwd exportMap r).run.value =
        .ok (assemble c.options.banner (importStatements groups) body exportText) ∧
      (∀ specifier item, groups.Lists specifier item ↔
        ∃ i ∈ imports, specifierOf cwd r.outputPath exportMap i = .ok (some specifier) ∧
          i.item = item) ∧
      ∀ specifier item, .symbol item ∈ imports →
        specifierOf cwd r.outputPath exportMap (.symbol item) = .ok (some specifier) →
        ∃ key' s, files.exporter? (importedName item) = some (key', s) ∧
          Path.LeadsTo cwd r.outputPath specifier s.outputPath ∧
          (edgeCase.bind (·.importsOverride) = none → (edgeCase.map (·.imports)).getD [] = [] →
            s ≠ r ∧ s.outputPath ≠ r.outputPath) := by
  unfold Converter.convert at hslash hrun hdistinct hpaths hr ⊢
  obtain ⟨s, -, hconverter, hwrites⟩ := Converter.exists_passes hrun
  rw [hconverter] at hslash hdistinct hpaths hr ⊢
  obtain ⟨bytes, hbytes⟩ := hwrites.exists_writtenBytes (List.mem_map_of_mem hr)
  obtain ⟨text, htext, -⟩ := exists_convertScript hscript hbytes
  obtain ⟨groups, body, exportText, hgroups, rfl⟩ := convertScript_eq_ok htext
  refine ⟨groups, body, exportText, htext, ?_, ?_⟩
  · intro specifier item
    rw [lists_groupImports hgroups]
    exact or_iff_right (ImportGroups.not_lists_nil specifier item)
  · intro specifier item hitem hspecifier
    obtain ⟨key', exporter, hexporter, hleads⟩ := exists_exporter hcwd hslash hpaths hspecifier
    refine ⟨key', exporter, hexporter, hleads, fun hoverride himports => ?_⟩
    have hne : exporter ≠ r :=
      exporter_ne hexporter (importedName_notMem_own hoverride himports hitem)
    refine ⟨hne, fun hpath => hne ?_⟩
    have hmem : (key', exporter) ∈ s.files := List.mem_of_find?_eq_some hexporter
    exact congrArg Prod.snd (List.inj_on_of_nodup_map hdistinct hmem hr hpath)

/-- A tree with one script that assigns to the namespace and one that imports, also under a new
name, what the first one assigns. -/
def linkedTree : FileTree where
  entries := [(["work"], .directory),
    (["work", "a.js"], .file (Text.encodeUtf8 "NS.A = function () \x7b\x7d".toList)),
    (["work", "b.js"],
    .file (Text.encodeUtf8 "import \x7b A as Z \x7d from 'x'; new NS.A()".toList))]

/-- A converter of both scripts that stores the second one in a directory of its own. -/
def linkedConverter : Converter where
  options := {
    inputs := ["a.js", "b.js"]
    excludes := []
    output := "out"
    edgeCases := [("b", { outputOverride := some "sub/b.js" })]
    banner := ""
    namespaceName := "NS" }

/-- The record of the script that assigns. -/
def exportingRecord : FileRecord where
  source := {
    path := "/work/a.js"
    root := "/work/a.js"
    text := "NS.A = function () \x7b\x7d"
    baseName := "a"
    extension := ".js"
    raw := [] }
  outputPath := "out/a.js"
  classification := ⟨.classic, ["NS.A = function"]⟩
  exports := [.plain "A"]

/-- The record of the script that imports. -/
def importingRecord : FileRecord where
  source := {
    path := "/work/b.js"
    root := "/work/b.js"
    text := "import \x7b A as Z \x7d from 'x'; new NS.A()"
    baseName := "b"
    extension := ".js"
    raw := [] }
  outputPath := "out/sub/b.js"
  classification := ⟨.es6, []⟩
  exports := [.plain "b"]

theorem imports_lead_to_exporters_linked :
    (linkedConverter.convert "/work" linkedTree).failure = none ∧
      (linkedConverter.convert "/work" linkedTree).converter.files.exporter? "A" =
        some ("a", exportingRecord) ∧
      Path.LeadsTo "/work" "out/sub/b.js" "../a.js" exportingRecord.outputPath ∧
      exportingRecord ≠ importingRecord := by
  have hdone : (linkedConverter.convert "/work" linkedTree).failure = none ∧
      (linkedConverter.convert "/work" linkedTree).converter.files =
        [("a", exportingRecord), ("b", importingRecord)] ∧
      (linkedConverter.convert "/work" linkedTree).converter.exportMap =
        [("A", "out/a.js"), ("b", "out/sub/b.js")] := by
    decide +kernel
  obtain ⟨hrun, hfiles, hmap⟩ := hdone
  obtain ⟨groups, body, exportText, -, -, hlinks⟩ :=
    imports_lead_to_exporters linkedConverter "/work" linkedTree (by decide)
      (fun _ _ _ => by decide) hrun (by rw [hfiles]; decide) (by rw [hfiles]; decide)
      "b" importingRecord (by simp [hfiles]) (by decide)
  rw [hfiles, hmap] at hlinks
  obtain ⟨key, s, hexporter, hleads, hother⟩ :=
    hlinks "../a.js" "A as Z" (by decide +kernel) (by decide +kernel)
  have hname : importedName "A as Z" = "A" := by decide +kernel
  have hfirst : FileMap.exporter? [("a", exportingRecord), ("b", importingRecord)] "A" =
      some ("a", exportingRecord) := by decide +kernel
  rw [hname, hfirst] at hexporter
  obtain ⟨rfl, rfl⟩ := Prod.mk.inj (Option.some.inj hexporter)
  exact ⟨hrun, by rw [hfiles, hfirst], hleads, (hother rfl rfl).1⟩

/-- The two scripts in a directory whose name holds a backslash. -/
def backslashTree : FileTree where
  entries := [(["a\\b"], .directory),
    (["a\\b", "a.js"], .file (Text.encodeUtf8 "NS.A = function () \x7b\x7d".toList)),
    (["a\\b", "b.js"], .file (Text.encodeUtf8 "new NS.A()".toList))]

/-- A converter of both scripts that stores one of them at the path given. -/
def Converter.storing (baseName path : String) : Converter where
  options := { linkedConverter.options with
    edgeCases := [(baseName, { outputOverride := some path })] }

/-- In a directory whose name holds a backslash, an import leads to another path than the relative
output path of its exporter. In any directory, an import leads to a path that starts with one slash
where the output path of its exporter starts with two. -/
theorem import_leads_elsewhere :
    (let run := (Converter.storing "b" "/x/i.js").convert "/a\\b" backslashTree
    run.failure = none ∧ run.converter.files.map (·.2.outputPath) = ["out/a.js", "/x/i.js"] ∧
    run.tree.get? ["x", "i.js"] = some (.file (Text.encodeUtf8
      "import \x7b A \x7d from '../a/b/out/a.js'\n\nnew A()\nexport \x7b b \x7d\n".toList)) ∧
    Path.absolute "/a\\b" (Path.join "/x" "../a/b/out/a.js") = "/a/b/out/a.js" ∧
    Path.absolute "/a\\b" "out/a.js" = "/a\\b/out/a.js") ∧
    let run := (Converter.storing "a" "//work/x/a.js").convert "/work" linkedTree
    run.failure = none ∧ run.converter.files.map (·.2.outputPath) = ["//work/x/a.js", "out/b.js"] ∧
    specifierOf "/work" "out/b.js" run.converter.exportMap (.symbol "A") =
      .ok (some "../x/a.js") ∧
    Path.absolute "/work" (Path.join "out" "../x/a.js") = "/work/x/a.js" ∧
    Path.absolute "/work" "//work/x/a.js" = "//work/x/a.js" := by
  decide +kernel

end ScriptModules
