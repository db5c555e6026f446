import ScriptModules.Proofs.Converter.Effect
import ScriptModules.Proofs.ExportMap
import ScriptModules.Proofs.FirstOccurrence

/-!
# The accounts of a conversion

The first pass puts every discovered file into one of three accounts: it is excluded, its base name
is taken, or it gets the next record. Main statement: a conversion without a failure counts each
discovered file once, and its records are those of the first files of their base names, in the order
in which the names first occur.
-/

namespace ScriptModules

namespace Scan

variable {o : Options} {cwd : String} {t : FileTree} {s s' : Scan} {file : String × String}
  {found : List (String × String)}

theorem kept_cons_excluded (h : isExcluded file.1 o.excludes = true) :
    kept o (file :: found) = kept o found :=
  List.filter_cons_of_neg (by simp [h])

theorem kept_cons_kept (h : isExcluded file.1 o.excludes = false) :
    kept o (file :: found) = file :: kept o found :=
  List.filter_cons_of_pos (by simp [h])

/-- A base name is taken exactly if it is the name of a record. -/
theorem mem_names_iff {name : String} :
    name ∈ s.files.map (·.1) ↔ (s.files.lookup name).isSome = true := by
  rw [List.lookup_isSome_iff, List.mem_map]
  constructor
  · rintro ⟨f, hf, rfl⟩
    exact ⟨f, hf, beq_self_eq_true _⟩
  · rintro ⟨f, hf, hname⟩
    exact ⟨f, hf, (eq_of_beq hname).symm⟩

theorem not_mem_names {name : String} (h : s.files.lookup name = none) :
    name ∉ s.files.map (·.1) := by
  intro hmem
  simpa [h] using mem_names_iff.mp hmem

/-- Every discovered file is counted once: as a record, as excluded or as skipped. -/
theorem AddsAll.length_eq (h : AddsAll o cwd t s found s') :
    s'.files.length + s'.excluded + s'.skipped =
      s.files.length + s.excluded + s.skipped + found.length := by
  induction h with
  | nil s => rfl
  | cons hadds _ ih =>
      rw [ih, List.length_cons]
      cases hadds with
      | excluded _ =>
          simp only
          omega
      | skipped _ _ _ =>
          simp only
          omega
      | taken _ _ _ _ =>
          simp only [List.length_append, List.length_singleton]
          omega

/-- The excluded files are counted. -/
theorem AddsAll.excluded_eq (h : AddsAll o cwd t s found s') :
    s'.excluded = s.excluded + found.countP (fun file => isExcluded file.1 o.excludes) := by
  induction h with
  | nil s => rfl
  | cons hadds _ ih =>
      rw [ih, List.countP_cons]
      cases hadds with
      | excluded hexcluded =>
          simp only [hexcluded, if_true]
          omega
      | skipped hkeeps _ _ => simp [hkeeps]
      | taken hkeeps _ _ _ => simp [hkeeps]

/-- The records get the names of the kept files, each name where it first occurs. -/
theorem AddsAll.names_eq (h : AddsAll o cwd t s found s') (hs : (s.files.map (·.1)).Nodup) :
    s'.files.map (·.1) =
      unique
        (s.files.map (·.1) ++ (kept o found).map fun file => SourceFile.baseNameOf file.1) := by
  induction h with
  | nil s => rw [kept, List.filter_nil, List.map_nil, List.append_nil, unique_of_nodup hs]
  | @cons s s₁ s' file found hadds _ ih =>
      cases hadds with
      | excluded hexcluded =>
          rw [kept_cons_excluded hexcluded]
          exact ih hs
      | skipped hkeeps hread htaken =>
          obtain ⟨-, -, hname, -⟩ := SourceFile.read_eq_ok hread
          rw [kept_cons_kept hkeeps, List.map_cons, ← hname,
            unique_append_cons_of_mem (mem_names_iff.mpr htaken)]
          exact ih hs
      | @taken source r hkeeps hread hfree _ =>
          obtain ⟨-, -, hname, -⟩ := SourceFile.read_eq_ok hread
          have hnames : ((s.files ++ [(source.baseName, r)]).map (·.1)).Nodup := by
            rw [List.map_append]
            exact hs.append (List.nodup_singleton _)
              (List.disjoint_singleton.mpr (not_mem_names hfree))
          rw [kept_cons_kept hkeeps, List.map_cons, ← hname, ih hnames, List.map_append,
            List.append_assoc]
          rfl

/-- The record of a name is that of the first kept file with this base name, unless the name was
taken before. -/
theorem AddsAll.first_of_mem (h : AddsAll o cwd t s found s') {f : String × FileRecord}
    (hf : f ∈ s'.files) :
    f ∈ s.files ∨ f.1 ∉ s.files.map (·.1) ∧ ∃ file,
      (kept o found).find? (fun file => SourceFile.baseNameOf file.1 == f.1) = some file ∧
        recordAt? o cwd t file = some f := by
  induction h with
  | nil s => exact .inl hf
  | @cons s s₁ s' file found hadds _ ih =>
      cases hadds with
      | excluded hexcluded =>
          rw [kept_cons_excluded hexcluded]
          exact ih hf
      | skipped hkeeps hread htaken =>
          obtain ⟨-, -, hname, -⟩ := SourceFile.read_eq_ok hread
          refine (ih hf).imp_right ?_
          rintro ⟨hnew, first, hfirst, hrecord⟩
          have hother : (SourceFile.baseNameOf file.1 == f.1) = false := by
            rw [beq_eq_false_iff_ne, ← hname]
            rintro hsame
            exact hnew (hsame ▸ mem_names_iff.mpr htaken)
          rw [kept_cons_kept hkeeps, List.find?_cons, hother]
          exact ⟨hnew, first, hfirst, hrecord⟩
      | @taken source r hkeeps hread hfree hrecord =>
          obtain ⟨-, -, hname, -⟩ := SourceFile.read_eq_ok hread
          rw [kept_cons_kept hkeeps, List.find?_cons]
          rcases ih hf with hmem | ⟨hnew, first, hfirst, hrecord'⟩
          · rcases List.mem_append.mp hmem with hmem | hmem
            · exact .inl hmem
            · obtain rfl := List.mem_singleton.mp hmem
              refine .inr ⟨not_mem_names hfree, file, by simp [hname], ?_⟩
              simp [recordAt?, hread, hrecord, Except.toOption]
          · rw [List.map_append, List.mem_append, not_or] at hnew
            have hother : (SourceFile.baseNameOf file.1 == f.1) = false := by
              rw [beq_eq_false_iff_ne, ← hname]
              rintro hsame
              exact hnew.2 (by simp [hsame])
            rw [hother]
            exact .inr ⟨hnew.1, first, hfirst, hrecord'⟩

end Scan

/-- The records of scripts and of other files are all records. -/
theorem converted_add_copied (s : Scan) (exportMap : ExportMap) (records : List FileRecord) :
    ((s.result exportMap).extended records).tally.converted +
      ((s.result exportMap).extended records).tally.copied = records.length := by
  simp only [Result.extended, Scan.result, Nat.zero_add]
  rw [List.length_eq_countP_add_countP (fun r : FileRecord => r.source.isScript)]
  simp

/-- A conversion without a failure puts every discovered file into one account. Its records have the
base names of the files that are not excluded, each where it first occurs, and each is the record of
the first such file with its name. The outputs are those of the records in order, and the scripts,
the other files and the registered names are counted once each. -/
theorem convert_accounts (c : Converter) (cwd : String) (t : FileTree)
    (hrun : (c.convert cwd t).failure = none) :
    let files := (c.convert cwd t).converter.files
    let exportMap := (c.convert cwd t).converter.exportMap
    ∃ found result, discover t cwd c.options.inputs = .ok found ∧
      (c.convert cwd t).converter.result = some result ∧
      result.tally.converted + result.tally.copied + result.tally.excluded + result.tally.skipped =
        found.length ∧
      result.tally.excluded = found.countP (fun file => isExcluded file.1 c.options.excludes) ∧
      files.map (·.1) =
        unique ((Scan.kept c.options found).map fun file => SourceFile.baseNameOf file.1) ∧
      (∀ f ∈ files, ∃ file,
        (Scan.kept c.options found).find? (fun file => SourceFile.baseNameOf file.1 == f.1) =
          some file ∧
          Scan.recordAt? c.options cwd t file = some f) ∧
      result.outputs = files.map (fun f => f.2.outputPath) ∧
      result.tally.converted = files.countP (fun f => f.2.source.isScript) ∧
      result.tally.copied = files.countP (fun f => !f.2.source.isScript) ∧
      (exportMap.map (·.1)).Nodup ∧ result.tally.registered = exportMap.length := by
  unfold Converter.convert at hrun ⊢
  obtain ⟨s, hscan, hconverter, -⟩ := Converter.exists_passes hrun
  obtain ⟨found, hfound, hadds⟩ := Scan.exists_addsAll hscan
  simp only [hconverter]
  refine ⟨found, _, hfound, rfl, ?_, ?_, ?_, ?_, ?_, ?_, ?_, ExportMap.nodup_build _, rfl⟩
  · rw [converted_add_copied, List.length_map]
    exact hadds.length_eq.trans (Nat.zero_add _)
  · exact hadds.excluded_eq.trans (Nat.zero_add _)
  · simpa using hadds.names_eq List.nodup_nil
  · intro f hf
    rcases hadds.first_of_mem hf with hmem | ⟨-, hfirst⟩
    · simp at hmem
    · exact hfirst
  · simp [Result.extended, Scan.result, Function.comp_def]
  · simp [Result.extended, Scan.result, List.countP_map, Function.comp_def]
  · simp [Result.extended, Scan.result, List.countP_map, Function.comp_def]

/-- A script and a note, a file with the base name of the script, and a file to be left out. -/
def accountsTree : FileTree where
  entries := [(["work"], .directory),
    (["work", "a.js"], .file (Text.encodeUtf8 "NS.A = function () \x7b\x7d".toList)),
    (["work", "a.txt"], .file [97]),
    (["work", "draft.txt"], .file [100]),
    (["work", "note.txt"], .file [110])]

/-- A converter that discovers the note twice and leaves the draft out. -/
def accountsConverter : Converter where
  options := {
    inputs := ["note.txt", "draft.txt", "a.js", "a.txt", "./note.txt"]
    excludes := ["draft.txt"]
    output := "out"
    edgeCases := []
    banner := ""
    namespaceName := "NS" }

theorem convert_accounts_overlapping :
    (accountsConverter.convert "/work" accountsTree).failure = none ∧
      ∃ result, (accountsConverter.convert "/work" accountsTree).converter.result = some result ∧
        result.tally.converted + result.tally.copied + result.tally.excluded +
          result.tally.skipped = 5 ∧
        (accountsConverter.convert "/work" accountsTree).converter.files.map (·.1) = ["note", "a"] ∧
        ∃ f ∈ (accountsConverter.convert "/work" accountsTree).converter.files, f.1 = "a" ∧
          Scan.recordAt? accountsConverter.options "/work" accountsTree
            ("/work/a.js", "/work/a.js") = some f := by
  have hrun : (accountsConverter.convert "/work" accountsTree).failure = none := by decide +kernel
  have hdiscover : discover accountsTree "/work" accountsConverter.options.inputs =
      .ok [("/work/note.txt", "/work/note.txt"), ("/work/draft.txt", "/work/draft.txt"),
        ("/work/a.js", "/work/a.js"), ("/work/a.txt", "/work/a.txt"),
        ("/work/note.txt", "/work/note.txt")] := by
    decide +kernel
  obtain ⟨found, result, hfound, hresult, hsum, -, hnames, hfirst, -⟩ :=
    convert_accounts accountsConverter "/work" accountsTree hrun
  obtain rfl := Except.ok.inj (hdiscover.symm.trans hfound)
  generalize (accountsConverter.convert "/work" accountsTree).converter.files = files
    at hnames hfirst ⊢
  have hkept : files.map (·.1) = ["note", "a"] := hnames.trans (by decide +kernel)
  refine ⟨hrun, result, hresult, hsum, hkept, ?_⟩
  obtain ⟨f, hf, hname⟩ : ∃ f ∈ files, f.1 = "a" := List.mem_map.mp (by simp [hkept])
  obtain ⟨file, hfile, hrecord⟩ := hfirst f hf
  rw [hname] at hfile
  have hscript : some file = some ("/work/a.js", "/work/a.js") := by
    rw [← hfile]
    decide +kernel
  rw [Option.some.inj hscript] at hrecord
  exact ⟨f, hf, hname, hrecord⟩

end ScriptModules
