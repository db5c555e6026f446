import ScriptModules.Converter
import ScriptModules.Proofs.FileTree.Store
import ScriptModules.Proofs.Work

/-!
# What the first pass finds

The first pass takes in the discovered files one after the other: it counts the excluded ones, skips
those whose base name is taken, and makes a record of each other file from what the file holds.
-/

namespace ScriptModules

variable {o : Options} {cwd : String} {t : FileTree}

/-- The record is made from what the tree holds at the path of its file. -/
structure FileRecord.ReadFrom (o : Options) (cwd : String) (t : FileTree) (r : FileRecord) :
    Prop where
  read : SourceFile.read t cwd r.source.path r.source.root = .ok r.source
  record : (Scan.recordOf o cwd r.source).run.value = .ok r

namespace SourceFile

/-- The base name of the file at a path. -/
def baseNameOf (path : String) : String := (Path.splitExtension (Path.fileName path)).1

/-- A script keeps the text of the bytes without comments, any other file the bytes. -/
theorem read_eq_ok {path root : String} {source : SourceFile}
    (h : read t cwd path root = .ok source) :
    source.path = path ∧ source.root = root ∧ source.baseName = baseNameOf path ∧
      ∃ bytes, t.readBytes cwd (Path.tidy path) = .ok bytes ∧
        (source.isScript = true → source.text = scriptText bytes) ∧
        (source.isScript = false → source.raw = bytes) := by
  unfold read at h
  unfold baseNameOf
  generalize Path.splitExtension (Path.fileName path) = name at h ⊢
  obtain ⟨baseName, extension⟩ := name
  obtain ⟨bytes, hbytes, h⟩ := bind_eq_ok.mp h
  split at h
  · rename_i hscript
    obtain rfl := Except.ok.inj h
    exact ⟨rfl, rfl, rfl, bytes, hbytes, fun _ => rfl,
      fun hother => by simp [isScript, hscript] at hother⟩
  · rename_i hscript
    obtain rfl := Except.ok.inj h
    exact ⟨rfl, rfl, rfl, bytes, hbytes, fun hother => absurd hother hscript, fun _ => rfl⟩

end SourceFile

namespace Scan

/-- A record belongs to its source, and the exports of a script are those of its text. -/
theorem recordOf_eq_ok {source : SourceFile} {r : FileRecord}
    (h : (recordOf o cwd source).run.value = .ok r) :
    r.source = source ∧
      SourceFile.outputPath cwd source.path source.root o.output (o.edgeCaseFor source.baseName) =
        .ok r.outputPath ∧
      (source.isScript = true → r.exports = (resolveExports o.namespaceName source.baseName
        (o.edgeCaseFor source.baseName) (classify o.namespaceName source.text)
        source.text).value) := by
  rw [recordOf] at h
  obtain ⟨outputPath, hpath, h⟩ := Work.value_bind_eq_ok.mp h
  split at h
  · obtain ⟨exports, hexports, h⟩ := Work.value_bind_eq_ok.mp h
    obtain ⟨-, -, h⟩ := Work.value_bind_eq_ok.mp h
    obtain rfl := Except.ok.inj h
    exact ⟨rfl, hpath, fun _ => (Except.ok.inj hexports).symm⟩
  · rename_i hscript
    obtain rfl := Except.ok.inj h
    exact ⟨rfl, hpath, fun hother => absurd hother hscript⟩

/-- What taking in one discovered file can do. -/
inductive Adds (o : Options) (cwd : String) (t : FileTree) (s : Scan) (file : String × String) :
    Scan → Prop where
  | excluded : isExcluded file.1 o.excludes = true →
      Adds o cwd t s file { s with excluded := s.excluded + 1 }
  | skipped {source : SourceFile} : isExcluded file.1 o.excludes = false →
      SourceFile.read t cwd file.1 file.2 = .ok source →
        (s.files.lookup source.baseName).isSome = true →
      Adds o cwd t s file { s with skipped := s.skipped + 1 }
  | taken {source : SourceFile} {r : FileRecord} : isExcluded file.1 o.excludes = false →
      SourceFile.read t cwd file.1 file.2 = .ok source → s.files.lookup source.baseName = none →
      (recordOf o cwd source).run.value = .ok r →
      Adds o cwd t s file { s with files := s.files ++ [(source.baseName, r)] }

theorem adds_of_add {s s' : Scan} {file : String × String}
    (h : (add o cwd t s file).run.value = .ok s') :
    Adds o cwd t s file s' := by
  rw [add] at h
  split at h
  · rename_i hexcluded
    obtain ⟨-, -, h⟩ := Work.value_bind_eq_ok.mp h
    obtain rfl := Except.ok.inj h
    exact .excluded hexcluded
  · rename_i hexcluded
    obtain ⟨source, hsource, h⟩ := Work.value_bind_eq_ok.mp h
    rw [Work.value_result, mapError_eq_ok] at hsource
    split at h
    · rename_i htaken
      obtain ⟨-, -, h⟩ := Work.value_bind_eq_ok.mp h
      obtain rfl := Except.ok.inj h
      exact .skipped (by simpa using hexcluded) hsource htaken
    · rename_i hfree
      obtain ⟨r, hr, h⟩ := Work.value_bind_eq_ok.mp h
      obtain rfl := Except.ok.inj h
      exact .taken (by simpa using hexcluded) hsource (Option.not_isSome_iff_eq_none.mp hfree) hr

/-- Discovered files are taken in one after the other. -/
inductive AddsAll (o : Options) (cwd : String) (t : FileTree) :
    Scan → List (String × String) → Scan → Prop where
  | nil (s : Scan) : AddsAll o cwd t s [] s
  | cons {s s' s'' : Scan} {file : String × String} {found : List (String × String)} :
      Adds o cwd t s file s' →
      AddsAll o cwd t s' found s'' → AddsAll o cwd t s (file :: found) s''

/-- The first pass takes in all files that are discovered. -/
theorem exists_addsAll {s : Scan} (h : (run o cwd t).run.value = .ok s) :
    ∃ found, discover t cwd o.inputs = .ok found ∧ AddsAll o cwd t {} found s := by
  rw [run] at h
  obtain ⟨found, hfound, h⟩ := Work.value_bind_eq_ok.mp h
  refine ⟨found, hfound, ?_⟩
  clear hfound
  rw [Work.value_foldlM] at h
  generalize ({} : Scan) = s₀ at h ⊢
  induction found generalizing s₀ with
  | nil =>
      obtain rfl := Except.ok.inj h
      exact .nil s₀
  | cons file found ih =>
      rw [List.foldlM_cons] at h
      obtain ⟨s₁, hadd, h⟩ := bind_eq_ok.mp h
      exact .cons (adds_of_add hadd) (ih s₁ h)

/-- Every record is made from the file that the tree holds. -/
theorem AddsAll.readFrom {s s' : Scan} {found : List (String × String)}
    (h : AddsAll o cwd t s found s') (hs : ∀ f ∈ s.files, f.2.ReadFrom o cwd t) :
    ∀ f ∈ s'.files, f.2.ReadFrom o cwd t := by
  induction h with
  | nil s => exact hs
  | cons hadds _ ih =>
      apply ih
      cases hadds with
      | excluded _ => exact hs
      | skipped _ _ _ => exact hs
      | taken _ hread _ hrecord =>
          obtain ⟨hpath, hroot, -⟩ := SourceFile.read_eq_ok hread
          obtain ⟨rfl, -⟩ := recordOf_eq_ok hrecord
          intro f hf
          rcases List.mem_append.mp hf with hf | hf
          · exact hs f hf
          · obtain rfl := List.mem_singleton.mp hf
            exact ⟨by rw [hpath, hroot]; exact hread, hrecord⟩

/-- The discovered files that are not excluded. -/
def kept (o : Options) (found : List (String × String)) : List (String × String) :=
  found.filter fun file => !isExcluded file.1 o.excludes

/-- The record of a discovered file by its base name. -/
def recordAt? (o : Options) (cwd : String) (t : FileTree) (file : String × String) :
    Option (String × FileRecord) := do
  let source ← (SourceFile.read t cwd file.1 file.2).toOption
  let r ← (recordOf o cwd source).run.value.toOption
  return (source.baseName, r)

/-- Where no two files that are not excluded share a base name, all of them are taken in. -/
theorem AddsAll.of_nodup {s s' : Scan} {found : List (String × String)}
    (h : AddsAll o cwd t s found s')
    (hnames :
      (s.files.map (·.1) ++ (kept o found).map fun file => SourceFile.baseNameOf file.1).Nodup) :
    s'.files = s.files ++ (kept o found).filterMap (recordAt? o cwd t) ∧
      s'.excluded = s.excluded + found.countP (fun file => isExcluded file.1 o.excludes) ∧
        s'.skipped = s.skipped := by
  induction h with
  | nil s => simp [kept]
  | @cons s s₁ s' file found hadds _ ih =>
      rw [List.countP_cons]
      cases hadds with
      | excluded hexcluded =>
          have hkept : kept o (file :: found) = kept o found :=
            List.filter_cons_of_neg (by simp [hexcluded])
          rw [hkept] at hnames ⊢
          obtain ⟨hfiles, hcount, hskipped⟩ := ih hnames
          refine ⟨hfiles, ?_, hskipped⟩
          rw [hcount, if_pos hexcluded]
          simp only
          omega
      | skipped hkeeps hread htaken =>
          have hkept : kept o (file :: found) = file :: kept o found :=
            List.filter_cons_of_pos (by simp [hkeeps])
          obtain ⟨-, -, hname, -⟩ := SourceFile.read_eq_ok hread
          rw [hkept, List.map_cons, ← hname] at hnames
          obtain ⟨f, hf, hsame⟩ := List.lookup_isSome_iff.mp htaken
          exact absurd (eq_of_beq hsame).symm
            ((List.nodup_append.mp hnames).2.2 f.1 (List.mem_map_of_mem hf) _ List.mem_cons_self)
      | @taken source r hkeeps hread hfree hrecord =>
          have hkept : kept o (file :: found) = file :: kept o found :=
            List.filter_cons_of_pos (by simp [hkeeps])
          have hrecordAt : recordAt? o cwd t file = some (source.baseName, r) := by
            simp [recordAt?, hread, hrecord, Except.toOption]
          obtain ⟨-, -, hname, -⟩ := SourceFile.read_eq_ok hread
          rw [hkept, List.map_cons, ← hname] at hnames
          obtain ⟨hfiles, hcount, hskipped⟩ := ih (by simpa using hnames)
          rw [hkept, List.filterMap_cons, hrecordAt]
          exact ⟨by simpa using hfiles, by simpa [hkeeps] using hcount, hskipped⟩

end Scan

end ScriptModules
