import ScriptModules.FileTree.Basic
import ScriptModules.Proofs.Path.Specifier

/-!
# Routes of paths

What a path says by itself about where it leads, before any entry is looked at: it starts at the
root or at the current directory, and each of its leading parts leads to a place on its route.
Taking components off the end of a path takes places off the end of its route, and writing the path
tidily does not change where it leads.
-/

namespace ScriptModules.Path

/-- The current directory: an absolute path without dots. -/
structure Current (cwd : String) : Prop where
  absolute : isAbsolute cwd = true
  settled : ∀ c ∈ parts cwd, Settled c

instance (c : String) : Decidable (Settled c) :=
  decidable_of_iff (c ≠ "" ∧ c ≠ "." ∧ c ≠ "..")
    ⟨fun ⟨h, h', h''⟩ => ⟨h, h', h''⟩, fun ⟨h, h', h''⟩ => ⟨h, h', h''⟩⟩

instance (cwd : String) : Decidable (Current cwd) :=
  decidable_of_iff (isAbsolute cwd = true ∧ ∀ c ∈ parts cwd, Settled c)
    ⟨fun ⟨h, h'⟩ => ⟨h, h'⟩, fun ⟨h, h'⟩ => ⟨h, h'⟩⟩

/-- The directory from which a path is followed. -/
def start (cwd path : String) : List String := if isAbsolute path then [] else parts cwd

/-- The places to which the leading parts of some components lead from a directory, one for each
name. -/
def routeFrom : List String → List String → List (List String)
  | _, [] => []
  | dir, c :: rest =>
    if c == "" || c == "." then routeFrom dir rest
    else if c == ".." then routeFrom dir.dropLast rest
    else (dir ++ [c]) :: routeFrom (dir ++ [c]) rest

/-- The places to which the leading parts of a path lead. -/
def route (cwd path : String) : List (List String) := routeFrom (start cwd path) (parts path)

section Route

variable {dir cs : List String} {c cwd : String}

theorem routeFrom_cons_settled (hc : Settled c) :
    routeFrom dir (c :: cs) = (dir ++ [c]) :: routeFrom (dir ++ [c]) cs := by
  simp [routeFrom, hc.ne_empty, hc.ne_dot, hc.ne_dots]

theorem routeFrom_of_all_empty (h : ∀ c ∈ cs, c = "") : routeFrom dir cs = [] := by
  induction cs with
  | nil => rfl
  | cons c cs ih =>
      obtain rfl := h c (by simp)
      have hrest := ih fun d hd => h d (List.mem_cons_of_mem _ hd)
      simpa [routeFrom] using hrest

theorem resolveDots_of_all_empty {rooted : Bool} {kept : List String} (h : ∀ c ∈ cs, c = "") :
    resolveDots rooted kept cs = kept.reverse := by
  induction cs with
  | nil => rfl
  | cons c cs ih =>
      obtain rfl := h c (by simp)
      rw [resolveDots_cons_empty]
      exact ih fun d hd => h d (List.mem_cons_of_mem _ hd)

/-- The leading parts of a leading part are leading parts of the whole. -/
theorem prefix_routeFrom (dir cs ds : List String) :
    routeFrom dir cs <+: routeFrom dir (cs ++ ds) := by
  fun_induction routeFrom dir cs with
  | case1 dir => exact List.nil_prefix
  | case2 dir c rest hc ih => simpa [routeFrom, hc] using ih
  | case3 dir c rest hc hdots ih => simpa [routeFrom, hc, hdots] using ih
  | case4 dir c rest hc hdots ih => simpa [routeFrom, hc, hdots] using ih

/-- Empty components do not count. -/
theorem routeFrom_filter (dir cs : List String) :
    routeFrom dir (cs.filter (!·.isEmpty)) = routeFrom dir cs := by
  induction cs generalizing dir with
  | nil => rfl
  | cons c cs ih =>
      by_cases hc : c = ""
      · subst hc
        simp [routeFrom, ih]
      · rw [List.filter_cons_of_pos (by simpa using hc)]
        simp [routeFrom, ih]

theorem routeFrom_parts (dir : List String) (p : String) :
    routeFrom dir (parts p) = routeFrom dir (components p) :=
  routeFrom_filter dir (components p)

/-- The last component is the file name. -/
theorem exists_components_eq (p : String) : ∃ cs, components p = cs ++ [fileName p] := by
  obtain ⟨hslash, hcases⟩ := fileName_spec p
  have hlast : (Text.splitOn '/' (fileName p).toList).map String.ofList = [fileName p] := by
    rw [Text.splitOn_of_not_mem hslash, List.map_singleton, String.ofList_toList]
  rcases hcases with ⟨-, hname⟩ | ⟨l, hl, -⟩
  · refine ⟨[], ?_⟩
    rw [hname] at hlast
    rw [components, hlast, hname]
    rfl
  · refine ⟨(Text.splitOn '/' l).map String.ofList, ?_⟩
    rw [components, hl, Text.splitOn_append, List.map_append, hlast]

/-- Before a file name, a path has the route of its parent. -/
theorem route_parent {p : String} {cs : List String} (hcs : components p = cs ++ [fileName p])
    (hname : fileName p ≠ "") : route cwd (parent p) = routeFrom (start cwd p) cs := by
  have hlast : parts (fileName p) = [fileName p] := by
    rw [parts_eq_partsOf, partsOf_of_no_slash (by simpa using hname) (fileName_spec p).1,
      String.ofList_toList]
  have hparts : cs.filter (!·.isEmpty) = parts (parent p) := by
    have hboth := parts_parent p
    rw [hlast, parts, hcs, List.filter_append, List.filter_cons_of_pos (by simpa using hname)]
      at hboth
    exact List.append_cancel_right hboth
  rw [route, start, start, isAbsolute_parent, ← hparts, routeFrom_filter]

/-- The normalised path is where the components lead from the start. -/
theorem absoluteComponents_eq_resolveDots (hcwd : Current cwd) (p : String) :
    absoluteComponents cwd p = resolveDots true (start cwd p).reverse (components p) := by
  rw [absoluteComponents_eq hcwd.absolute, absoluteParts, start]
  split
  · exact resolveDots_parts true [] p
  · rw [resolveDots_append, resolveDots_of_settled hcwd.settled, ← resolveDots_parts]
    rfl

theorem settled_start (hcwd : Current cwd) (p : String) : ∀ c ∈ start cwd p, Settled c := by
  rw [start]
  split
  · simp
  · exact hcwd.settled

end Route

section LeadingPart

variable {a b c : String}

/-- The first path is a leading part of the second. -/
structure LeadingPart (front path : String) : Prop where
  absolute : isAbsolute front = isAbsolute path
  parts : parts front <+: parts path

theorem LeadingPart.refl (p : String) : LeadingPart p p := ⟨rfl, List.prefix_refl _⟩

theorem LeadingPart.trans (h : LeadingPart a b) (h' : LeadingPart b c) : LeadingPart a c :=
  ⟨h.absolute.trans h'.absolute, h.parts.trans h'.parts⟩

theorem leadingPart_parent (p : String) : LeadingPart (parent p) p :=
  ⟨isAbsolute_parent p, by rw [parts_parent p]; exact List.prefix_append _ _⟩

theorem leadingPart_splitLast (p : String) : LeadingPart (FileTree.splitLast p).1 p := by
  rw [FileTree.splitLast]
  simp only
  split
  · exact (leadingPart_parent _).trans (leadingPart_parent p)
  · exact leadingPart_parent p

/-- A leading part of a path leads through places to which the path leads as well. -/
theorem LeadingPart.route_subset (h : LeadingPart a b) (cwd : String) :
    route cwd a ⊆ route cwd b := by
  obtain ⟨rest, hrest⟩ := h.parts
  have hstart : start cwd a = start cwd b := by rw [start, start, h.absolute]
  rw [route, route, hstart, ← hrest]
  exact (prefix_routeFrom _ _ _).subset

end LeadingPart

section Tidy

variable {cwd p : String}

theorem resolveDots_filter (rooted : Bool) (kept cs : List String) :
    resolveDots rooted kept (cs.filter fun c => !(c == "" || c == ".")) =
      resolveDots rooted kept cs := by
  induction cs generalizing kept with
  | nil => rfl
  | cons c cs ih =>
      by_cases hc : c = "" ∨ c = "."
      · rcases hc with rfl | rfl
        · rw [List.filter_cons_of_neg (by decide), ih, resolveDots_cons_empty]
        · rw [List.filter_cons_of_neg (by decide), ih, resolveDots_cons_dot]
      · have hsingle (ds : List String) : resolveDots rooted kept (c :: ds) =
            resolveDots rooted (resolveDots rooted kept [c]).reverse ds :=
              resolveDots_append rooted kept [c] ds
        rw [List.filter_cons_of_pos (by simpa using hc), hsingle, hsingle cs, ih]

theorem rootSlashes_of_not_isAbsolute (h : isAbsolute p = false) : rootSlashes p = "" := by
  rw [rootSlashes, takeWhile_slash_of_not_isAbsolute h]

/-- A path that is written tidily starts where it did and resolves alike. -/
theorem tidy_spec (p : String) : isAbsolute (tidy p) = isAbsolute p ∧
    ∀ kept, resolveDots true kept (parts (tidy p)) = resolveDots true kept (parts p) := by
  have hcs : ∀ c ∈ (components p).filter (fun c => !(c == "" || c == ".")), c ≠ "" ∧
      '/' ∉ c.toList := by
    intro c hc
    obtain ⟨hmem, hkept⟩ := List.mem_filter.mp hc
    have hne : c ≠ "" := by
      rintro rfl
      simp at hkept
    exact ⟨hne, (mem_parts (List.mem_filter.mpr ⟨hmem, by simpa using hne⟩ : c ∈ parts p)).2.1⟩
  have hresolve (kept : List String) := resolveDots_filter true kept (components p)
  simp only [← resolveDots_parts true _ p] at hresolve
  rw [tidy]
  generalize (components p).filter (fun c => !(c == "" || c == ".")) = cs at hcs hresolve
  have hparts := parts_joinComponents hcs
  cases hp : isAbsolute p with
  | true =>
      have hroot (l : List Char) : partsOf ((rootSlashes p).toList ++ l) = partsOf l := by
        rcases rootSlashes_of_isAbsolute hp with h | h <;> simp [h, partsOf_cons_slash]
      obtain ⟨x, hx⟩ : ∃ l, (rootSlashes p).toList = '/' :: l := by
        rcases rootSlashes_of_isAbsolute hp with h | h
        · exact ⟨_, by rw [h]; rfl⟩
        · exact ⟨_, by rw [h]; rfl⟩
      have hne : ¬ (rootSlashes p ++ joinComponents cs).isEmpty = true := by
        rw [String.isEmpty_iff, ← String.toList_inj]
        simp [hx]
      simp only [if_neg hne]
      refine ⟨by simp [isAbsolute, hx], fun kept => ?_⟩
      rw [parts_eq_partsOf, String.toList_append, hroot, ← parts_eq_partsOf, hparts, hresolve]
  | false =>
      rw [rootSlashes_of_not_isAbsolute hp]
      simp only [String.empty_append]
      split
      · rename_i hempty
        rw [String.isEmpty_iff.mp hempty] at hparts
        subst hparts
        exact ⟨rfl, fun kept => (hresolve kept).symm ▸ resolveDots_cons_dot true kept []⟩
      · exact ⟨isAbsolute_joinComponents hcs, fun kept => by rw [hparts, hresolve]⟩

/-- Writing a path tidily does not change where it leads. -/
theorem absoluteComponents_tidy (hcwd : isAbsolute cwd = true) (p : String) :
    absoluteComponents cwd (tidy p) = absoluteComponents cwd p := by
  obtain ⟨habsolute, hresolve⟩ := tidy_spec p
  rw [absoluteComponents_eq hcwd, absoluteComponents_eq hcwd, absoluteParts,
    absoluteParts, habsolute]
  split
  · exact hresolve []
  · rw [resolveDots_append, resolveDots_append, hresolve]

end Tidy

end ScriptModules.Path
