import ScriptModules.Proofs.Converter.Accounting
import ScriptModules.Proofs.Discovery

/-!
# Destinations

Without an override, a file is stored under the output root at the place that it has under its
input, and an input that is a file is stored under its name. What is discovered has names below its
input and no dots, so the destination is the output root and then these names, also after
normalisation. The last of them is the name of the file, and two records never share a base name: so
no two destinations are the same, whatever the inputs.
-/

namespace ScriptModules

namespace Path

section Normal

variable {p root name path cwd : String} {cs below : List String}

/-- The components of the normalised path. -/
def normalParts (p : String) : List String := resolveDots (isAbsolute p) [] (parts p)

theorem isEmpty_rootSlashes (p : String) : (rootSlashes p).isEmpty = !isAbsolute p := by
  cases hp : isAbsolute p with
  | false =>
      rw [rootSlashes_of_not_isAbsolute hp]
      rfl
  | true =>
      rcases rootSlashes_of_isAbsolute hp with hroot | hroot
      · rw [hroot]
        rfl
      · rw [hroot]
        rfl

/-- A normalised path is its slashes and its components, or a dot if there is nothing of both. -/
theorem normalize_eq (p : String) :
    normalize p = if (rootSlashes p ++ joinComponents (normalParts p)).isEmpty then "."
      else rootSlashes p ++ joinComponents (normalParts p) := by
  rw [normalize, isEmpty_rootSlashes, Bool.not_not, ← resolveDots_parts, normalParts]

/-- What is left without dots are components that were there, none of them empty and none a single
dot. -/
theorem mem_of_mem_resolveDots {rooted : Bool} {kept : List String} {c : String}
    (h : c ∈ resolveDots rooted kept cs) :
    c ∈ kept ∨ (c ∈ cs ∧ c ≠ "" ∧ c ≠ ".") := by
  fun_induction resolveDots rooted kept cs with
  | case1 kept => exact .inl (List.mem_reverse.mp h)
  | case2 kept d rest hd ih => exact (ih h).imp_right fun hc => ⟨List.mem_cons_of_mem _ hc.1, hc.2⟩
  | case3 d rest hd hdots hrooted ih =>
      exact (ih h).imp_right fun hc => ⟨List.mem_cons_of_mem _ hc.1, hc.2⟩
  | case4 d rest hd hdots hrooted ih =>
      rw [beq_iff_eq] at hdots
      rcases ih h with hc | hc
      · obtain rfl := List.mem_singleton.mp hc
        exact .inr ⟨by simp [hdots], by decide, by decide⟩
      · exact .inr ⟨List.mem_cons_of_mem _ hc.1, hc.2⟩
  | case5 d rest hd hdots k others hk ih =>
      rcases ih h with hc | hc
      · rcases List.mem_cons.mp hc with rfl | hc
        · exact .inr ⟨by simp, by simpa using hd⟩
        · exact .inl hc
      · exact .inr ⟨List.mem_cons_of_mem _ hc.1, hc.2⟩
  | case6 d rest hd hdots k others hk ih =>
      exact (ih h).imp (List.mem_cons_of_mem _) fun hc => ⟨List.mem_cons_of_mem _ hc.1, hc.2⟩
  | case7 kept d rest hd hdots ih =>
      rcases ih h with hc | hc
      · rcases List.mem_cons.mp hc with rfl | hc
        · exact .inr ⟨by simp, by simpa using hd⟩
        · exact .inl hc
      · exact .inr ⟨List.mem_cons_of_mem _ hc.1, hc.2⟩

theorem mem_normalParts {c : String} (h : c ∈ normalParts p) :
    c ≠ "" ∧ c ≠ "." ∧ '/' ∉ c.toList := by
  rcases mem_of_mem_resolveDots h with hc | ⟨hc, hempty, hdot⟩
  · simp at hc
  · exact ⟨hempty, hdot, (mem_parts hc).2.1⟩

theorem solid_normalParts : ∀ c ∈ normalParts p, c ≠ "" ∧ '/' ∉ c.toList := fun _ hc =>
  ⟨(mem_normalParts hc).1, (mem_normalParts hc).2.2⟩

/-- The names after a normalised path. The current directory is not written in front of them. -/
def followedBy (p : String) (names : List String) : String :=
  if p = "." then joinComponents names else join p (joinComponents names)

theorem solid_of_isName (h : ∀ c ∈ below, IsName c) :
    ∀ c ∈ below, c ≠ "" ∧ '/' ∉ c.toList := fun c hc =>
  ⟨(h c hc).1.ne_empty, (h c hc).2⟩

/-- The names are the last parts of what they follow. -/
theorem parts_followedBy (p : String) (h : ∀ c ∈ below, IsName c) :
    parts (followedBy p below) = (if p = "." then [] else parts p) ++ below := by
  have hparts := parts_joinComponents (solid_of_isName h)
  rw [followedBy]
  split
  · exact hparts
  · rw [parts_join (isAbsolute_joinComponents (solid_of_isName h)), hparts]

/-- The components of a path that ends in names are those of what comes before and the names. -/
theorem normalParts_join (root : String) (h : ∀ c ∈ below, IsName c) :
    normalParts (join root (joinComponents below)) = normalParts root ++ below := by
  have hrelative := isAbsolute_joinComponents (solid_of_isName h)
  have hsettled : ∀ c ∈ below, Settled c := fun c hc => (h c hc).1
  rw [normalParts, isAbsolute_join hrelative, parts_join hrelative,
    parts_joinComponents (solid_of_isName h), resolveDots_append, resolveDots_of_settled hsettled,
    List.reverse_reverse]
  rfl

theorem rootSlashes_join_names (root : String) (h : ∀ c ∈ below, IsName c) :
    rootSlashes (join root (joinComponents below)) = rootSlashes root := by
  have hrelative := isAbsolute_joinComponents (solid_of_isName h)
  by_cases hroot : root = ""
  · subst hroot
    have hempty : isAbsolute "" = false := rfl
    rw [rootSlashes_of_not_isAbsolute ((isAbsolute_join hrelative).trans hempty),
      rootSlashes_of_not_isAbsolute hempty]
  · exact rootSlashes_join hroot hrelative

theorem parts_rootSlashes_append (p s : String) : parts (rootSlashes p ++ s) = parts s := by
  rw [parts_eq_partsOf, String.toList_append, parts_eq_partsOf]
  cases hp : isAbsolute p with
  | false =>
      rw [rootSlashes_of_not_isAbsolute hp]
      rfl
  | true =>
      rcases rootSlashes_of_isAbsolute hp with hroot | hroot
      · simp [hroot, partsOf_cons_slash]
      · simp [hroot, partsOf_cons_slash]

/-- Names are put right after slashes. -/
theorem followedBy_rootSlashes (h : isAbsolute p = true) (hbelow : ∀ c ∈ below, IsName c) :
    followedBy (rootSlashes p) below = rootSlashes p ++ joinComponents below := by
  have hrelative := isAbsolute_joinComponents (solid_of_isName hbelow)
  rw [followedBy, join, if_neg (by simp [hrelative] : ¬isAbsolute (joinComponents below) = true)]
  rcases rootSlashes_of_isAbsolute h with hroot | hroot
  · rw [hroot]
    rfl
  · rw [hroot]
    rfl

/-- Names are put after components with a slash between them. -/
theorem followedBy_components (p : String) (hne : normalParts p ≠ []) (hbelow : below ≠ [])
    (h : ∀ c ∈ below, IsName c) :
    followedBy (rootSlashes p ++ joinComponents (normalParts p)) below =
      rootSlashes p ++ joinComponents (normalParts p ++ below) := by
  obtain ⟨hfull, hend⟩ := getLast?_joinComponents hne solid_normalParts
  have hrelative := isAbsolute_joinComponents (solid_of_isName h)
  have hdot : rootSlashes p ++ joinComponents (normalParts p) ≠ "." := by
    intro heq
    have hparts : normalParts p = ["."] := by
      rw [← parts_joinComponents solid_normalParts, ← parts_rootSlashes_append p, heq]
      rfl
    exact (mem_normalParts (p := p) (c := ".") (by simp [hparts])).2.1 rfl
  rw [followedBy, if_neg hdot, join, if_neg (by simp [hrelative]), if_neg (by simp [hfull, hend]),
    joinComponents_append hne hbelow, String.append_assoc, String.append_assoc, String.append_assoc]

/-- Names after a path stay where they are when the path is normalised. -/
theorem normalize_join (root : String) (hne : below ≠ []) (h : ∀ c ∈ below, IsName c) :
    normalize (join root (joinComponents below)) = followedBy (normalize root) below := by
  have hsolid : ∀ c ∈ normalParts root ++ below, c ≠ "" ∧ '/' ∉ c.toList := by
    intro c hc
    rcases List.mem_append.mp hc with hc | hc
    · exact solid_normalParts c hc
    · exact solid_of_isName h c hc
  have hfull := (getLast?_joinComponents (by simp [hne]) hsolid).1
  rw [normalize_eq (join root _), rootSlashes_join_names root h, normalParts_join root h,
    if_neg (by simp [hfull]), normalize_eq root]
  by_cases hparts : normalParts root = []
  · have hnothing : joinComponents [] = "" := rfl
    rw [hparts, List.nil_append, hnothing, String.append_empty, isEmpty_rootSlashes]
    cases hroot : isAbsolute root with
    | true => exact (followedBy_rootSlashes hroot h).symm
    | false =>
        rw [rootSlashes_of_not_isAbsolute hroot, String.empty_append]
        rfl
  · have hnormal := (getLast?_joinComponents hparts solid_normalParts).1
    rw [if_neg (by simp [hnormal]), followedBy_components root hparts hne h]

/-- The file name of a path is its last name. -/
theorem Plain.fileName_eq (h : Plain path cs) (hne : cs ≠ []) :
    cs.getLast? = some (fileName path) := by
  obtain ⟨-, front, -, hcomponents⟩ := h.components_eq
  obtain ⟨init, hinit⟩ := exists_components_eq path
  have hlast := congrArg List.getLast? (hcomponents.symm.trans hinit)
  rwa [List.getLast?_append_of_ne_nil _ hne, List.getLast?_concat] at hlast

/-- Names after a path are the last components from the root. -/
theorem absoluteComponents_join (hcwd : isAbsolute cwd = true) (root : String)
    (h : ∀ c ∈ below, IsName c) :
    absoluteComponents cwd (join root (joinComponents below)) =
      absoluteComponents cwd root ++ below := by
  have hsettled : ∀ c ∈ below, Settled c := fun c hc => (h c hc).1
  rw [absoluteComponents_eq hcwd,
    absoluteParts_join (isAbsolute_joinComponents (solid_of_isName h)),
    parts_joinComponents (solid_of_isName h), resolveDots_append, resolveDots_of_settled hsettled,
    List.reverse_reverse, ← absoluteComponents_eq hcwd]

theorem relativeComponents_append (start below : List String) :
    relativeComponents start (start ++ below) = below := by
  have hcommon : commonLength start (start ++ below) = start.length := by
    induction start with
    | nil => simp [commonLength]
    | cons c start ih => simp [commonLength, ih]
  rw [relativeComponents, hcommon]
  simp

/-- From a directory to what lies below it, the names between them lead. -/
theorem relative?_of_append (hpath : isAbsolute path = true) (hne : below ≠ [])
    (h : absoluteComponents cwd path = absoluteComponents cwd root ++ below) :
    relative? cwd path root = some (joinComponents below) := by
  have hempty : ¬path.isEmpty = true := by
    intro hempty
    rw [String.isEmpty_iff.mp hempty] at hpath
    cases hpath
  rw [relative?, if_neg hempty, h, relativeComponents_append]
  simp [hne]

end Normal

end Path

/-- The components of a file below the input under which it was found: its name, if it is the input
itself, and else those that its path has after the path of the input. -/
inductive SourceFile.LiesBelow (cwd path root : String) : List String → Prop
  | itself : path = root → LiesBelow cwd path root [Path.fileName path]
  | under {below : List String} : path ≠ root →
      Path.absoluteComponents cwd path = Path.absoluteComponents cwd root ++ below →
        LiesBelow cwd path root below

section Discovered

variable {cwd : String} {t : FileTree} {inputs : List String} {found : List (String × String)}
  {file : String × String}

/-- A discovered file lies below its input by names, the last of which is its own, and its path from
the input is written with them. -/
theorem exists_liesBelow (hcwd : Path.isAbsolute cwd = true) (ht : t.WellFormed)
    (hlinks : t.LinkFree) (h : discover t cwd inputs = .ok found) (hfile : file ∈ found) :
    ∃ input ∈ inputs, file.2 = Path.absolute cwd input ∧
      ∃ below, SourceFile.LiesBelow cwd file.1 file.2 below ∧
      (∀ c ∈ below, Path.IsName c) ∧ below.getLast? = some (Path.fileName file.1) ∧
      SourceFile.relativePath cwd file.1 file.2 = .ok (Path.joinComponents below) := by
  obtain ⟨input, hinput, hroot, hcases⟩ := plain_of_mem_discover hcwd ht hlinks h hfile
  refine ⟨input, hinput, hroot, ?_⟩
  have hplain := Path.plain_absolute hcwd input
  rw [← hroot] at hplain
  rcases hcases with ⟨hpath, hne⟩ | ⟨below, hne, hbelow⟩
  · have hlast := hplain.fileName_eq hne
    refine ⟨_, .itself hpath, ?_, rfl, ?_⟩
    · intro c hc
      obtain rfl := List.mem_singleton.mp hc
      rw [hpath]
      exact hplain.names _ (List.mem_of_getLast? hlast)
    · rw [SourceFile.relativePath, if_pos hpath]
      simp [Path.joinComponents, pure, Except.pure]
  · have hcomponents := hbelow.absoluteComponents_eq hcwd
    have hrootComponents := hplain.absoluteComponents_eq hcwd
    have hother : file.1 ≠ file.2 := by
      intro hsame
      rw [hsame, hrootComponents] at hcomponents
      exact hne (by simpa using hcomponents)
    refine ⟨below, .under hother (by rw [hcomponents, hrootComponents]), ?_, ?_, ?_⟩
    · exact fun c hc => hbelow.names c (List.mem_append_right _ hc)
    · have hlast := hbelow.fileName_eq (by simp [hne])
      rwa [List.getLast?_append_of_ne_nil _ hne] at hlast
    · have hleads : Path.absoluteComponents cwd file.1 =
          Path.absoluteComponents cwd file.2 ++ below := by
        rw [hcomponents, hrootComponents]
      rw [SourceFile.relativePath, if_neg hother,
        Path.relative?_of_append hbelow.components_eq.1 hne hleads]
      rfl

end Discovered

/-- The record mirrors its file: its destination is the output root, and then the names that the
file has below its input. -/
structure FileRecord.Mirrors (o : Options) (cwd : String) (r : FileRecord) (below : List String) :
    Prop where
  input : ∃ input ∈ o.inputs, r.source.root = Path.absolute cwd input
  lies : SourceFile.LiesBelow cwd r.source.path r.source.root below
  names : ∀ c ∈ below, Path.IsName c
  normalize : Path.normalize r.outputPath = Path.followedBy (Path.normalize o.output) below
  components : Path.absoluteComponents cwd r.outputPath =
    Path.absoluteComponents cwd o.output ++ below

namespace Scan

variable {o : Options} {cwd : String} {t : FileTree} {s : Scan}

/-- The record of a discovered file belongs to the file, and its destination is found from there. -/
theorem recordAt?_eq_some {file : String × String} {f : String × FileRecord}
    (h : recordAt? o cwd t file = some f) :
    f.1 = SourceFile.baseNameOf file.1 ∧ f.2.source.path = file.1 ∧ f.2.source.root = file.2 ∧
      SourceFile.outputPath cwd file.1 file.2 o.output (o.edgeCaseFor f.1) =
        .ok f.2.outputPath := by
  rw [recordAt?] at h
  cases hread : SourceFile.read t cwd file.1 file.2 with
  | error e =>
      rw [hread] at h
      cases h
  | ok source =>
      rw [hread] at h
      cases hrecord : (recordOf o cwd source).run.value with
      | error e => simp [Except.toOption, hrecord] at h
      | ok r =>
          obtain rfl : (source.baseName, r) = f := by simpa [Except.toOption, hrecord] using h
          obtain ⟨hpath, hroot, hname, -⟩ := SourceFile.read_eq_ok hread
          obtain ⟨rfl, houtput, -⟩ := recordOf_eq_ok hrecord
          rw [hpath, hroot] at houtput
          exact ⟨hname, hpath, hroot, houtput⟩

theorem outputOverride_eq_none (h : ∀ e ∈ o.edgeCases, e.2.outputOverride = none) (name : String) :
    (o.edgeCaseFor name).bind (·.outputOverride) = none := by
  cases hedge : o.edgeCaseFor name with
  | none => rfl
  | some e =>
      obtain ⟨before, after, hsplit, -⟩ := List.lookup_eq_some_iff.mp hedge
      exact h (name, e) (by simp [hsplit])

/-- Without overrides every record mirrors its file, whose base name is the name of the record. -/
theorem exists_mirrors (hcwd : Path.isAbsolute cwd = true) (ht : t.WellFormed) (hlinks : t.LinkFree)
    (hoverride : ∀ e ∈ o.edgeCases, e.2.outputOverride = none)
    (hscan : (run o cwd t).run.value = .ok s) {f : String × FileRecord} (hf : f ∈ s.files) :
    ∃ below, f.2.Mirrors o cwd below ∧
      below.getLast?.map (fun name => (Path.splitExtension name).1) = some f.1 := by
  obtain ⟨found, hfound, hadds⟩ := exists_addsAll hscan
  obtain ⟨-, file, hfile, hrecord⟩ := (hadds.first_of_mem hf).resolve_left (by simp)
  have hmem : file ∈ found := (List.mem_filter.mp (List.mem_of_find?_eq_some hfile)).1
  obtain ⟨hname, hpath, hroot, houtput⟩ := recordAt?_eq_some hrecord
  obtain ⟨input, hinput, hinputRoot, below, hlies, hnames, hlast, hrelative⟩ :=
    exists_liesBelow hcwd ht hlinks hfound hmem
  have hplace : f.2.outputPath = Path.join o.output (Path.joinComponents below) := by
    rw [SourceFile.outputPath, outputOverride_eq_none hoverride, hrelative] at houtput
    exact (Except.ok.inj houtput).symm
  have hne : below ≠ [] := by
    rintro rfl
    cases hlast
  refine ⟨below, ⟨⟨input, hinput, hroot.trans hinputRoot⟩, ?_, hnames, ?_, ?_⟩, ?_⟩
  · rw [hpath, hroot]
    exact hlies
  · rw [hplace]
    exact Path.normalize_join o.output hne hnames
  · rw [hplace]
    exact Path.absoluteComponents_join hcwd o.output hnames
  · rw [hlast, hname]
    rfl

/-- Where what is said of a record determines the names below its input, it determines the
record. -/
theorem nodup_of_mirrors {α : Type} {g : String × FileRecord → α}
    (hnames : (s.files.map (·.1)).Nodup)
    (hmirrors : ∀ f ∈ s.files, ∃ below, f.2.Mirrors o cwd below ∧
      below.getLast?.map (fun name => (Path.splitExtension name).1) = some f.1)
    (hg : ∀ f f' below below', f.2.Mirrors o cwd below → f'.2.Mirrors o cwd below' → g f = g f' →
      below = below') :
    (s.files.map g).Nodup := by
  rw [List.Nodup, List.pairwise_map] at *
  refine hnames.imp_of_mem fun {f f'} hf hf' hother hsame => ?_
  obtain ⟨below, hmirror, hname⟩ := hmirrors f hf
  obtain ⟨below', hmirror', hname'⟩ := hmirrors f' hf'
  obtain rfl := hg f f' below below' hmirror hmirror' hsame
  exact hother (Option.some.inj (hname.symm.trans hname'))

end Scan

/-- In a well-formed tree without links and without overrides, the first pass gives every file a
place of its own: the destinations are pairwise distinct, as normalised texts and from the root, and
each is the output root followed by the names of the file below its input, none of which is a dot or
two. -/
theorem scan_destinations (o : Options) (cwd : String) (t : FileTree)
    (hcwd : Path.isAbsolute cwd = true) (ht : t.WellFormed) (hlinks : t.LinkFree)
    (hoverride : ∀ e ∈ o.edgeCases, e.2.outputOverride = none) (s : Scan)
    (hscan : (Scan.run o cwd t).run.value = .ok s) :
    (s.files.map fun f => Path.normalize f.2.outputPath).Nodup ∧
    (s.files.map fun f => Path.absoluteComponents cwd f.2.outputPath).Nodup ∧
    ∀ f ∈ s.files, ∃ below, f.2.Mirrors o cwd below := by
  have hmirrors := fun f (hf : f ∈ s.files) => Scan.exists_mirrors hcwd ht hlinks hoverride hscan hf
  have hnames : (s.files.map (·.1)).Nodup := by
    obtain ⟨found, -, hadds⟩ := Scan.exists_addsAll hscan
    rw [hadds.names_eq List.nodup_nil]
    exact nodup_unique _
  refine ⟨?_, ?_, ?_⟩
  · apply Scan.nodup_of_mirrors hnames hmirrors
    intro f f' below below' hmirror hmirror' hsame
    rw [hmirror.normalize, hmirror'.normalize] at hsame
    have hparts := congrArg Path.parts hsame
    rw [Path.parts_followedBy _ hmirror.names, Path.parts_followedBy _ hmirror'.names] at hparts
    exact List.append_cancel_left hparts
  · apply Scan.nodup_of_mirrors hnames hmirrors
    intro f f' below below' hmirror hmirror' hsame
    rw [hmirror.components, hmirror'.components] at hsame
    exact List.append_cancel_left hsame
  · intro f hf
    obtain ⟨below, hmirror, -⟩ := hmirrors f hf
    exact ⟨below, hmirror⟩

section Samples

/-- A directory with a file and another directory in it. -/
def nestedTree : FileTree where
  entries := [(["work"], .directory), (["work", "in"], .directory),
    (["work", "in", ".rc"], .file [114]),
    (["work", "in", "sub"], .directory), (["work", "in", "sub", "a"], .file [97])]

/-- Options with a file and the directory in which it stands as inputs. -/
def nestedOptions : Options where
  inputs := ["in/sub/../.rc", "./in"]
  excludes := []
  output := "../out/."
  edgeCases := []
  banner := ""
  namespaceName := "NS"

theorem names_nestedTree : nestedTree.names ["work", "in"] = [".rc", "sub"] ∧
    nestedTree.names ["work", "in", "sub"] = ["a"] := by
  have hfound : nestedTree.entries.filterMap (fun p => FileTree.childName? ["work", "in"] p.1) =
      [".rc", "sub"] ∧
      nestedTree.entries.filterMap (fun p => FileTree.childName? ["work", "in", "sub"] p.1) =
        ["a"] := by decide
  rw [FileTree.names, FileTree.names, hfound.1, hfound.2]
  constructor
  · exact List.mergeSort_of_pairwise (by decide +kernel)
  · exact List.mergeSort_of_pairwise (by decide +kernel)

theorem filesBelow_nestedTree (depth : Nat) :
    filesBelow nestedTree "/work" (depth + 1) "/work/in/.rc" = .ok ["/work/in/.rc"] ∧
      filesBelow nestedTree "/work" (depth + 3) "/work/in" =
        .ok ["/work/in/.rc", "/work/in/sub/a"] := by
  have hplaces : nestedTree.entryAt? "/work" "/work/in" = some (["work", "in"], .directory) ∧
      nestedTree.entryAt? "/work" "/work/in/sub" = some (["work", "in", "sub"], .directory) ∧
      nestedTree.entryAt? "/work" "/work/in/.rc" = some (["work", "in", ".rc"], .file [114]) ∧
      nestedTree.entryAt? "/work" "/work/in/sub/a" =
        some (["work", "in", "sub", "a"], .file [97]) := by
    decide +kernel
  obtain ⟨hin, hsub, hrc, ha⟩ := hplaces
  have hfile (depth : Nat) {path : String} {q : List String} {bytes : List UInt8}
      (h : nestedTree.entryAt? "/work" path = some (q, .file bytes)) :
      filesBelow nestedTree "/work" (depth + 1) path = .ok [path] := by
    rw [filesBelow, h]
    rfl
  have hbelow :=
    filesBelow_directory (g := fun _ => ["/work/in/sub/a"]) (depth + 1) hsub fun name hname => by
    rw [names_nestedTree.2, List.mem_singleton] at hname
    rw [hname]
    exact hfile depth ha
  have hall := filesBelow_directory (g := fun name => if name = "sub" then ["/work/in/sub/a"]
    else ["/work/in/.rc"])
    (depth + 2) hin fun name hname => by
      rw [names_nestedTree.1, List.mem_pair] at hname
      rcases hname with rfl | rfl
      · exact hfile (depth + 1) hrc
      · rwa [names_nestedTree.2] at hbelow
  rw [names_nestedTree.1] at hall
  exact ⟨hfile depth hrc, hall⟩

theorem discover_nestedTree : discover nestedTree "/work" nestedOptions.inputs =
    .ok [("/work/in/.rc", "/work/in/.rc"), ("/work/in/.rc", "/work/in"),
      ("/work/in/sub/a", "/work/in")] := by
  have hdepth : nestedTree.depthBound = 203 + 3 := by decide +kernel
  have hroots : Path.absolute "/work" "in/sub/../.rc" = "/work/in/.rc" ∧
      Path.absolute "/work" "./in" = "/work/in" := by
    decide +kernel
  have hfiles := (filesBelow_nestedTree 205).1
  have hfiles' := (filesBelow_nestedTree 203).2
  have hfirst : filesOfInput nestedTree "/work" "in/sub/../.rc" =
      [("/work/in/.rc", "/work/in/.rc")] := by
    rw [filesOfInput, hdepth, hroots.1, filesOf_eq hfiles]
    rfl
  have hsecond : filesOfInput nestedTree "/work" "./in" =
      [("/work/in/.rc", "/work/in"), ("/work/in/sub/a", "/work/in")] := by
    rw [filesOfInput, hdepth, hroots.2, filesOf_eq hfiles']
    rfl
  rw [discover_eq_ok_iff, hdepth]
  constructor
  · intro input hmem
    rcases List.mem_pair.mp hmem with rfl | rfl
    · rw [hroots.1]
      exact ⟨_, hfiles⟩
    · rw [hroots.2]
      exact ⟨_, hfiles'⟩
  · rw [nestedOptions, List.flatMap_cons, List.flatMap_cons, hfirst, hsecond]
    rfl

theorem scan_destinations_overlapping :
    ∃ s, (Scan.run nestedOptions "/work" nestedTree).run.value = .ok s ∧
      (s.files.map fun f => Path.normalize f.2.outputPath) = ["../out/.rc", "../out/sub/a"] ∧
      (s.files.map fun f => Path.normalize f.2.outputPath).Nodup ∧
      ∀ f ∈ s.files, ∃ below, f.2.Mirrors nestedOptions "/work" below := by
  have htree : nestedTree.WellFormed := FileTree.wellFormed_of_entries (by decide) (by decide)
  have hlinks : nestedTree.LinkFree := FileTree.linkFree_of_entries (by simp [nestedTree])
  have hpaths : ((Scan.run nestedOptions "/work" nestedTree).run.value.map fun s =>
      s.files.map fun f => Path.normalize f.2.outputPath) = .ok ["../out/.rc", "../out/sub/a"] := by
    rw [Scan.run, Work.value_bind, Work.value_result, discover_nestedTree]
    decide +kernel
  cases hscan : (Scan.run nestedOptions "/work" nestedTree).run.value with
  | error f =>
      rw [hscan] at hpaths
      cases hpaths
  | ok s =>
      rw [hscan] at hpaths
      obtain ⟨hdistinct, -, hmirrors⟩ :=
        scan_destinations nestedOptions "/work" nestedTree (by decide) htree hlinks
        (by simp [nestedOptions]) s hscan
      exact ⟨s, rfl, Except.ok.inj hpaths, hdistinct, hmirrors⟩

end Samples

end ScriptModules
