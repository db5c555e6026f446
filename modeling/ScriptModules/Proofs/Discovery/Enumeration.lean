import ScriptModules.Proofs.Discovery
import Mathlib.Data.List.Lex

/-!
# The order of discovery

In a well-formed tree without links, discovery lists the files at or below each input, each of them
once. A directory is searched name by name, and what is below a name comes before all that is below
the next one. The files are therefore in the order of their components, which is not the order of
their paths as texts. Discovery fails exactly where an input is not there or something at or below
it is neither a file nor a directory, however deep that is.
-/

namespace ScriptModules

/-- The order of paths by their components, which are compared character by character. -/
def Path.Precedes : List String → List String → Prop := List.Lex (· < ·)

namespace FileTree

/-- All that stands at or below a path is a file or a directory. -/
def Regular (t : FileTree) (base : List String) : Prop :=
  ∀ q e, base <+: q → t.get? q = some e → e = .directory ∨ ∃ bytes, e = .file bytes

/-- The list holds the files at or below a path, each once and in order. -/
structure Lists (t : FileTree) (base : List String) (paths : List (List String)) : Prop where
  sorted : paths.Pairwise Path.Precedes
  mem_iff : ∀ p, p ∈ paths ↔ base <+: p ∧ ∃ bytes, t.get? p = some (.file bytes)

/-- The files at or below a path, directory by directory; the first argument bounds the depth. -/
def filePaths (t : FileTree) : Nat → List String → List (List String)
  | 0, _ => []
  | depth + 1, cs =>
    match t.get? cs with
    | some (.file _) => [cs]
    | some .directory => (t.names cs).flatMap fun name => filePaths t depth (cs ++ [name])
    | _ => []

section Listing

variable {t : FileTree} {cs p : List String} {depth : Nat}

theorem prefix_of_mem_filePaths (h : p ∈ t.filePaths depth cs) :
    cs <+: p ∧ ∃ bytes, t.get? p = some (.file bytes) := by
  induction depth generalizing cs with
  | zero => cases h
  | succ depth ih =>
      rw [filePaths] at h
      cases hget : t.get? cs with
      | none =>
          rw [hget] at h
          cases h
      | some e =>
          rw [hget] at h
          cases e with
          | file bytes =>
              obtain rfl := List.mem_singleton.mp h
              exact ⟨List.prefix_rfl, bytes, hget⟩
          | directory =>
              obtain ⟨name, -, hmem⟩ := List.mem_flatMap.mp h
              obtain ⟨hprefixed, hfile⟩ := ih hmem
              exact ⟨(List.prefix_append cs [name]).trans hprefixed, hfile⟩
          | _ => cases h

/-- A depth at which no entry is left to be found. -/
def Exhausts (t : FileTree) (depth : Nat) (cs : List String) : Prop :=
  ∀ q, (t.get? q).isSome = true → q.length < depth + cs.length

theorem Exhausts.below (h : t.Exhausts (depth + 1) cs) (name : String) :
    t.Exhausts depth (cs ++ [name]) := by
  intro q hq
  have hlength := h q hq
  rw [List.length_append, List.length_singleton]
  omega

theorem exhausts_depthBound (t : FileTree) (cs : List String) : t.Exhausts t.depthBound cs :=
  fun _ hq => Nat.lt_add_right _ (length_lt_depthBound hq)

/-- Whatever is below a directory is below one of its names. -/
theorem WellFormed.mem_names_of_append (ht : t.WellFormed) {name : String} {below : List String}
    {e : Entry} (h : t.get? ((cs ++ [name]) ++ below) = some e) : name ∈ t.names cs := by
  rw [mem_names]
  by_cases hbelow : below = []
  · rw [hbelow, List.append_nil] at h
    rw [h]
    rfl
  · rw [ht.get?_of_append hbelow h]
    rfl

/-- The listing holds every file at or below the path. -/
theorem mem_filePaths (ht : t.WellFormed) (hdepth : t.Exhausts depth cs) :
    p ∈ t.filePaths depth cs ↔ cs <+: p ∧ ∃ bytes, t.get? p = some (.file bytes) := by
  refine ⟨prefix_of_mem_filePaths, ?_⟩
  rintro ⟨⟨below, rfl⟩, bytes, hfile⟩
  induction depth generalizing cs below with
  | zero =>
      have hlength := hdepth (cs ++ below) (by rw [hfile]; rfl)
      rw [List.length_append] at hlength
      omega
  | succ depth ih =>
      cases below with
      | nil =>
          rw [List.append_nil] at hfile ⊢
          rw [filePaths, hfile]
          exact List.mem_singleton_self cs
      | cons name below =>
          have hdirectory : t.get? cs = some .directory := ht.get?_of_append (by simp) hfile
          have hsplit : cs ++ name :: below = (cs ++ [name]) ++ below := by simp
          rw [hsplit] at hfile ⊢
          rw [filePaths, hdirectory]
          exact List.mem_flatMap.mpr ⟨name, ht.mem_names_of_append hfile,
            ih (hdepth.below name) below hfile⟩

/-- The names in a directory increase. -/
theorem WellFormed.pairwise_lt_names (ht : t.WellFormed) (dir : List String) :
    (t.names dir).Pairwise (· < ·) := by
  have hboth := (t.pairwise_names dir).and (ht.nodup_names dir)
  refine hboth.imp fun {a b} h => ?_
  by_contra hlt
  exact h.2 (String.le_antisymm h.1 (String.not_lt.mp hlt))

/-- What is below a name comes before what is below a later name. -/
theorem precedes_of_lt {dir q : List String} {a b : String} (hlt : a < b) (hp : dir ++ [a] <+: p)
    (hq : dir ++ [b] <+: q) : Path.Precedes p q := by
  obtain ⟨r, rfl⟩ := hp
  obtain ⟨s, rfl⟩ := hq
  rw [List.append_assoc, List.append_assoc]
  exact List.Lex.append_left _ (.rel hlt) dir

/-- The listing is in order. -/
theorem pairwise_filePaths (ht : t.WellFormed) (depth : Nat) (cs : List String) :
    (t.filePaths depth cs).Pairwise Path.Precedes := by
  induction depth generalizing cs with
  | zero => exact .nil
  | succ depth ih =>
      rw [filePaths]
      cases t.get? cs with
      | none => exact .nil
      | some e =>
          cases e with
          | file bytes => exact List.pairwise_singleton _ cs
          | directory =>
              rw [List.pairwise_flatMap]
              refine ⟨fun name _ => ih (cs ++ [name]), ?_⟩
              refine (ht.pairwise_lt_names cs).imp fun hlt p hp q hq => ?_
              exact precedes_of_lt hlt (prefix_of_mem_filePaths hp).1 (prefix_of_mem_filePaths hq).1
          | _ => exact .nil

/-- There is one listing only. -/
theorem Lists.eq {paths paths' : List (List String)} (h : t.Lists cs paths)
    (h' : t.Lists cs paths') :
    paths = paths' := by
  have hasymm (p q : List String) (hpq : Path.Precedes p q) (hqp : Path.Precedes q p) : p = q :=
    absurd hqp (Std.Asymm.asymm (r := List.Lex (· < ·)) p q hpq)
  have hnodup {l : List (List String)} (hl : l.Pairwise Path.Precedes) : l.Nodup := by
    refine hl.imp fun {p q} hpq heq => ?_
    subst heq
    exact Std.Asymm.asymm (r := List.Lex (· < ·)) p p hpq hpq
  have hperm : paths.Perm paths' := by
    rw [List.perm_ext_iff_of_nodup (hnodup h.sorted) (hnodup h'.sorted)]
    intro p
    rw [h.mem_iff, h'.mem_iff]
  exact hperm.eq_of_pairwise (fun p q _ _ => hasymm p q) h.sorted h'.sorted

theorem mem_entries_of_get? {e : Entry} (hne : p ≠ []) (h : t.get? p = some e) :
    (p, e) ∈ t.entries := by
  cases p with
  | nil => exact absurd rfl hne
  | cons c rest =>
      obtain ⟨front, back, hentries, -⟩ := List.lookup_eq_some_iff.mp h
      simp [hentries]

theorem regular_of_entries (h : ∀ p ∈ t.entries, p.2 = .directory ∨ ∃ bytes, p.2 = .file bytes) :
    t.Regular cs := by
  intro q e _ hq
  by_cases hne : q = []
  · subst hne
    exact .inl (Option.some.inj hq).symm
  · exact h _ (mem_entries_of_get? hne hq)

/-- A list is the listing if the list of entries shows it. -/
theorem lists_of_entries {paths : List (List String)} (hsorted : paths.Pairwise Path.Precedes)
    (hfiles : ∀ p ∈ paths, cs <+: p ∧ ∃ bytes, t.get? p = some (.file bytes))
    (hall : ∀ p ∈ t.entries, cs <+: p.1 → p.1 ∈ paths ∨ p.2 = .directory) : t.Lists cs paths := by
  refine ⟨hsorted, fun p => ⟨hfiles p, ?_⟩⟩
  rintro ⟨hp, bytes, hget⟩
  have hne : p ≠ [] := by
    rintro rfl
    cases hget
  exact (hall _ (mem_entries_of_get? hne hget) hp).resolve_right (by simp)

theorem lists_filePaths (ht : t.WellFormed) (cs : List String) :
    t.Lists cs (t.filePaths t.depthBound cs) where
  sorted := pairwise_filePaths ht _ cs
  mem_iff := fun _ => mem_filePaths ht (t.exhausts_depthBound cs)

theorem Regular.below (h : t.Regular cs) (name : String) : t.Regular (cs ++ [name]) :=
  fun q e hq => h q e ((List.prefix_append cs [name]).trans hq)

end Listing

end FileTree

section Walk

variable {t : FileTree} {root path : String} {cs : List String} {depth : Nat}

/-- The files below a path are found where all that is there is a file or a directory, in the order
of the listing. -/
theorem filesBelow_of_regular (cwd : String) (ht : t.WellFormed) (hlinks : t.LinkFree)
    (hroot : root = "/" ∨ root = "//") (hentry : (t.get? cs).isSome = true)
    (hdepth : t.Exhausts depth cs) (hregular : t.Regular cs) :
    filesBelow t cwd depth (root ++ Path.joinComponents cs) =
      .ok ((t.filePaths depth cs).map fun p => root ++ Path.joinComponents p) := by
  induction depth generalizing cs with
  | zero =>
      have hlength := hdepth cs hentry
      omega
  | succ depth ih =>
      obtain ⟨e, he⟩ := Option.isSome_iff_exists.mp hentry
      have hnames : ∀ c ∈ cs, Path.IsName c := ht.names cs e he
      have hplain : Path.Plain (root ++ Path.joinComponents cs) cs :=
        ⟨hroot.imp (fun h => by rw [h]) (fun h => by rw [h]), hnames⟩
      have hslash : root.toList.getLast? = some '/' := by
        rcases hroot with rfl | rfl
        · rfl
        · rfl
      have hplace : t.entryAt? cwd (root ++ Path.joinComponents cs) = some (cs, e) := by
        rw [FileTree.entryAt?_plain ht hlinks hplain, he]
        rfl
      rcases hregular cs e List.prefix_rfl he with rfl | ⟨bytes, rfl⟩
      · have hbelow : ∀ name ∈ t.names cs,
            filesBelow t cwd depth (Path.join (root ++ Path.joinComponents cs) name) =
            .ok ((t.filePaths depth (cs ++ [name])).map fun p => root ++
              Path.joinComponents p) := by
          intro name hname
          have hchild := FileTree.mem_names.mp hname
          obtain ⟨entry, hchildEntry⟩ := Option.isSome_iff_exists.mp hchild
          have hisName : Path.IsName name := ht.names _ _ hchildEntry name (by simp)
          rw [Path.join_joinComponents hslash hnames hisName]
          exact ih hchild (hdepth.below name) (hregular.below name)
        rw [filesBelow_directory depth hplace hbelow, FileTree.filePaths, he, List.map_flatMap]
      · rw [filesBelow, hplace, FileTree.filePaths, he]
        rfl

/-- Where the files below a path are found, all that is there is a file or a directory. -/
theorem regular_of_filesBelow {cwd : String} (ht : t.WellFormed) (hlinks : t.LinkFree)
    (hpath : Path.Plain path cs) {files : List String}
    (h : filesBelow t cwd depth path = .ok files) : t.Regular cs := by
  induction depth generalizing path cs files with
  | zero => cases h
  | succ depth ih =>
      have hplace : t.entryAt? cwd path = (t.get? cs).map fun e => (cs, e) :=
        FileTree.entryAt?_plain ht hlinks hpath
      rintro q e ⟨below, rfl⟩ hq
      cases below with
      | nil =>
          rw [List.append_nil] at hq
          rw [filesBelow, hplace, hq] at h
          cases e with
          | file bytes => exact .inr ⟨bytes, rfl⟩
          | directory => exact .inl rfl
          | _ => cases h
      | cons name below =>
          have hdirectory : t.get? cs = some .directory := ht.get?_of_append (by simp) hq
          rw [hdirectory, Option.map_some] at hplace
          obtain ⟨-, hfound⟩ := filesOf_directory hplace h
          have hsplit : cs ++ name :: below = (cs ++ [name]) ++ below := by simp
          have hname : Path.IsName name := ht.names _ _ hq name (by simp)
          rw [hsplit] at hq
          obtain ⟨found, hbelow⟩ := hfound name (ht.mem_names_of_append hq)
          exact ih (hpath.join hname) hbelow _ e (List.prefix_append _ below) hq

end Walk

section Discovered

variable {t : FileTree} {cwd : String}

/-- An input can be searched exactly if it is there and holds only files and directories. -/
theorem exists_filesBelow_iff (hcwd : Path.isAbsolute cwd = true) (ht : t.WellFormed)
    (hlinks : t.LinkFree) (input : String) :
    (∃ files, filesBelow t cwd t.depthBound (Path.absolute cwd input) = .ok files) ↔
      t.hasEntry cwd (Path.absolute cwd input) = true ∧
        t.Regular (Path.absoluteComponents cwd input) := by
  have hplain := Path.plain_absolute hcwd input
  constructor
  · rintro ⟨files, hfiles⟩
    exact ⟨isSome_entryAt?_of_filesBelow hfiles, regular_of_filesBelow ht hlinks hplain hfiles⟩
  · rintro ⟨hentry, hregular⟩
    rw [FileTree.hasEntry, FileTree.entryAt?_plain ht hlinks hplain, Option.isSome_map] at hentry
    rw [Path.absolute_eq hcwd input]
    exact ⟨_, filesBelow_of_regular cwd ht hlinks (Path.rootOf_eq hcwd input) hentry
      (t.exhausts_depthBound _) hregular⟩

/-- What is found below an input is the listing of it, under the root of the input. -/
theorem filesOfInput_eq (hcwd : Path.isAbsolute cwd = true) (ht : t.WellFormed)
    (hlinks : t.LinkFree) {input : String}
    (hentry : t.hasEntry cwd (Path.absolute cwd input) = true)
    (hregular : t.Regular (Path.absoluteComponents cwd input)) :
    filesOfInput t cwd input =
      (t.filePaths t.depthBound (Path.absoluteComponents cwd input)).map fun p =>
      (Path.rootSlashes (Path.absolute cwd input) ++ Path.joinComponents p,
        Path.absolute cwd input) := by
  have hplain := Path.plain_absolute hcwd input
  rw [FileTree.hasEntry, FileTree.entryAt?_plain ht hlinks hplain, Option.isSome_map] at hentry
  have hfiles := filesBelow_of_regular cwd ht hlinks (Path.rootOf_eq hcwd input) hentry
    (t.exhausts_depthBound _) hregular
  rw [← Path.absolute_eq hcwd input] at hfiles
  rw [filesOfInput, filesOf_eq hfiles, List.map_map, Path.rootSlashes_absolute hcwd]
  rfl

/-- Discovery succeeds exactly if every input, taken as its absolute normalised path, is there and
holds nothing but files and directories. It then gives, input by input, the files at or below the
input, each once, in the order of their components and with the absolute normalised path of the
input. -/
theorem discover_enumerates (hcwd : Path.isAbsolute cwd = true) (ht : t.WellFormed)
    (hlinks : t.LinkFree) (inputs : List String) :
    ((∃ found, discover t cwd inputs = .ok found) ↔
      ∀ input ∈ inputs, t.hasEntry cwd (Path.absolute cwd input) = true ∧
        t.Regular (Path.absoluteComponents cwd input)) ∧
    ∀ found, discover t cwd inputs = .ok found →
      ∃ paths : String → List (List String),
        (∀ input ∈ inputs, t.Lists (Path.absoluteComponents cwd input) (paths input)) ∧
        found = inputs.flatMap fun input => (paths input).map fun p =>
          (Path.rootSlashes (Path.absolute cwd input) ++ Path.joinComponents p,
            Path.absolute cwd input) := by
  have hsearched (input : String) := exists_filesBelow_iff hcwd ht hlinks input
  constructor
  · constructor
    · rintro ⟨found, h⟩ input hinput
      exact (hsearched input).mp ((discover_eq_ok_iff.mp h).1 input hinput)
    · intro h
      exact ⟨_,
        discover_eq_ok_iff.mpr ⟨fun input hinput => (hsearched input).mpr (h input hinput), rfl⟩⟩
  · intro found h
    obtain ⟨hfiles, rfl⟩ := discover_eq_ok_iff.mp h
    refine ⟨fun input => t.filePaths t.depthBound (Path.absoluteComponents cwd input), ?_, ?_⟩
    · intro input _
      exact FileTree.lists_filePaths ht _
    · refine List.flatMap_congr fun input hinput => ?_
      obtain ⟨hentry, hregular⟩ := (hsearched input).mp (hfiles input hinput)
      exact filesOfInput_eq hcwd ht hlinks hentry hregular

/-- A directory whose name is the start of the name of a file. -/
def forkedTree : FileTree where
  entries := [
    (["work"], .directory),
    (["work", "in"], .directory),
    (["work", "in", "a-b"], .file [98]),
    (["work", "in", "a"], .directory),
    (["work", "in", "a", "c"], .file [99])]

theorem lists_forkedTree :
    forkedTree.Lists ["work", "in"] [["work", "in", "a", "c"], ["work", "in", "a-b"]] ∧
      forkedTree.Lists ["work", "in", "a"] [["work", "in", "a", "c"]] := by
  constructor
  · refine FileTree.lists_of_entries ?_ ?_ (by decide)
    · exact List.pairwise_pair.mpr
        (by decide : List.Lex (· < ·) ["work", "in", "a", "c"] ["work", "in", "a-b"])
    · simp only [List.forall_mem_cons]
      exact ⟨⟨by decide, [99], rfl⟩, ⟨by decide, [98], rfl⟩, by simp⟩
  · refine FileTree.lists_of_entries (List.pairwise_singleton _ _) ?_ (by decide)
    simp only [List.forall_mem_cons]
    exact ⟨⟨by decide, [99], rfl⟩, by simp⟩

theorem discover_enumerates_forked : discover forkedTree "/work" ["./in", "in/a"] =
    .ok [("/work/in/a/c", "/work/in"), ("/work/in/a-b", "/work/in"),
      ("/work/in/a/c", "/work/in/a")] := by
  have htree : forkedTree.WellFormed := FileTree.wellFormed_of_entries (by decide) (by decide)
  have hlinks : forkedTree.LinkFree := FileTree.linkFree_of_entries (by simp [forkedTree])
  have hcwd : Path.isAbsolute "/work" = true := by decide
  have hregular (cs : List String) : forkedTree.Regular cs :=
    FileTree.regular_of_entries (by simp [forkedTree])
  obtain ⟨hiff, hlisted⟩ := discover_enumerates hcwd htree hlinks ["./in", "in/a"]
  have hentries : ∀ input ∈ ["./in", "in/a"],
      forkedTree.hasEntry "/work" (Path.absolute "/work" input) = true := by
    decide +kernel
  obtain ⟨found, hfound⟩ := hiff.mpr fun input hinput => ⟨hentries input hinput, hregular _⟩
  obtain ⟨paths, hpaths, rfl⟩ := hlisted found hfound
  have hroots : Path.absolute "/work" "./in" = "/work/in" ∧
      Path.absolute "/work" "in/a" = "/work/in/a" ∧
      Path.absoluteComponents "/work" "./in" = ["work", "in"] ∧
      Path.absoluteComponents "/work" "in/a" = ["work", "in", "a"] := by decide +kernel
  obtain ⟨hin, ha, hinParts, haParts⟩ := hroots
  have hfirst := (hinParts ▸ hpaths "./in" (by simp)).eq lists_forkedTree.1
  have hsecond := (haParts ▸ hpaths "in/a" (by simp)).eq lists_forkedTree.2
  rw [hfound, List.flatMap_cons, List.flatMap_cons, List.flatMap_nil, hfirst, hsecond, hin, ha]
  decide +kernel

end Discovered

end ScriptModules
