import ScriptModules.Proofs.Path.Route
import Mathlib.Data.List.Infix

/-!
# Where paths lead

A path that can be followed leads through directories and links to an entry or to a free place. It
leads to the same place in a tree that has grown: where all entries are still there, and only files
may hold other bytes. Where there are no links, a path leads to its normalised form, and through one
directory for each of its leading parts.
-/

namespace ScriptModules

/-- The place itself. -/
def Place.path : Place → List String
  | .found path _ => path
  | .free path _ => path

/-- A file can be put at the place: there is one, or the place is free. -/
inductive Place.Fits (p : List String) : Place → Prop where
  | file (bytes : List UInt8) : Place.Fits p (.found p (.file bytes))
  | free : Place.Fits p (.free p false)

namespace FileTree

/-- Components lead from a directory to a place, through at most the given number of links. -/
inductive Walks (t : FileTree) (followLast : Bool) :
    Nat → List String → List String → Place → Prop where
  | here (n : Nat) (dir : List String) : Walks t followLast n dir [] (.found dir .directory)
  | stay {n : Nat} {dir rest : List String} {c : String} {pl : Place} : c = "" ∨ c = "." →
      Walks t followLast n dir rest pl → Walks t followLast n dir (c :: rest) pl
  | up {n : Nat} {dir rest : List String} {pl : Place} :
      Walks t followLast n dir.dropLast rest pl → Walks t followLast n dir (".." :: rest) pl
  | free {n : Nat} {dir rest : List String} {c : String} :
      Path.Settled c → t.get? (dir ++ [c]) = none →
      (∀ d ∈ rest, d = "") →
        Walks t followLast n dir (c :: rest) (.free (dir ++ [c]) (!rest.isEmpty))
  | down {n : Nat} {dir rest : List String} {c : String} {pl : Place} : Path.Settled c →
      t.get? (dir ++ [c]) = some .directory → Walks t followLast n (dir ++ [c]) rest pl →
      Walks t followLast n dir (c :: rest) pl
  | last {n : Nat} {dir : List String} {c : String} {e : Entry} :
      Path.Settled c → t.get? (dir ++ [c]) = some e →
      e ≠ .directory → (∀ target, e = .link target → followLast = false) →
      Walks t followLast n dir [c] (.found (dir ++ [c]) e)
  | jump {n : Nat} {dir rest : List String} {c target : String} {pl : Place} : Path.Settled c →
      t.get? (dir ++ [c]) = some (.link target) → (rest = [] → followLast = true) →
      Walks t followLast n (if Path.isAbsolute target then []
        else dir) (Path.components target ++ rest) pl →
      Walks t followLast (n + 1) dir (c :: rest) pl

section Walks

variable {t t' : FileTree} {followLast : Bool} {n : Nat} {dir cs p : List String}
  {cwd path : String} {pl : Place}

theorem walk_nil (t : FileTree) (followLast : Bool) (n : Nat) (dir : List String) :
    t.walk followLast n dir [] = .ok (.found dir .directory) := by
  cases n with
  | zero => rfl
  | succ n => rfl

theorem walk_cons (t : FileTree) (followLast : Bool) (n : Nat) (dir : List String) (c : String)
    (rest : List String) :
    t.walk followLast n dir (c :: rest) =
      if c == "" || c == "." then t.walk followLast n dir rest
      else if c == ".." then t.walk followLast n dir.dropLast rest
      else match t.get? (dir ++ [c]) with
        | none => if rest.all (·.isEmpty) then .ok (.free (dir ++ [c]) (!rest.isEmpty))
          else .error .noEntry
        | some .directory => t.walk followLast n (dir ++ [c]) rest
        | some (.link target) =>
          if rest.isEmpty && !followLast then .ok (.found (dir ++ [c]) (.link target))
          else match n with
            | 0 => .error .linkLoop
            | n + 1 =>
              t.walk followLast n (if Path.isAbsolute target then [] else dir)
                (Path.components target ++ rest)
        | some e => if rest.isEmpty then .ok (.found (dir ++ [c]) e) else .error .notDirectory := by
  cases n with
  | zero => rfl
  | succ n => rfl

theorem settled_of_ne {c : String} (hc : ¬ (c == "" || c == ".") = true)
    (hdots : ¬ (c == "..") = true) :
    Path.Settled c := by
  simp only [Bool.or_eq_true, beq_iff_eq, not_or] at hc hdots
  exact ⟨hc.1, hc.2, hdots⟩

theorem walks_of_walk (h : t.walk followLast n dir cs = .ok pl) :
    Walks t followLast n dir cs pl := by
  induction n using Nat.strongRecOn generalizing dir cs with
  | ind n ihn =>
    induction cs generalizing dir with
    | nil =>
        rw [walk_nil] at h
        obtain rfl := Except.ok.inj h
        exact .here n dir
    | cons c rest ih =>
        rw [walk_cons] at h
        split at h
        · rename_i hc
          exact .stay (by simpa using hc) (ih h)
        split at h
        · rename_i hdots
          obtain rfl : c = ".." := by simpa using hdots
          exact .up (ih h)
        rename_i hc hdots
        have hsettled := settled_of_ne hc hdots
        split at h
        · rename_i hfree
          split at h
          · rename_i hrest
            obtain rfl := Except.ok.inj h
            exact .free hsettled hfree (by simpa using hrest)
          · simp at h
        · rename_i hdirectory
          exact .down hsettled hdirectory (ih h)
        · rename_i target hlink
          split at h
          · rename_i hlast
            obtain ⟨hrest, hfollow⟩ := Bool.and_eq_true_iff.mp hlast
            obtain rfl := List.isEmpty_iff.mp hrest
            obtain rfl := Except.ok.inj h
            exact .last hsettled hlink (by simp) (fun _ _ => by simpa using hfollow)
          · rename_i hlast
            cases n with
            | zero => simp at h
            | succ n =>
                refine .jump hsettled hlink ?_ (ihn n (by omega) h)
                rintro rfl
                simpa using hlast
        · rename_i e hdirectory hlink hentry
          split at h
          · rename_i hrest
            obtain rfl := List.isEmpty_iff.mp hrest
            obtain rfl := Except.ok.inj h
            exact .last hsettled hentry hdirectory fun target ht => (hlink target ht).elim
          · simp at h

theorem Walks.walk_eq (h : Walks t followLast n dir cs pl) :
    t.walk followLast n dir cs = .ok pl := by
  induction h with
  | here n dir => exact walk_nil t followLast n dir
  | stay hc _ ih =>
      rw [walk_cons, if_pos (by simpa using hc)]
      exact ih
  | up _ ih =>
      rw [walk_cons]
      exact ih
  | free hc hfree hrest =>
      rw [walk_cons, hfree]
      simpa [hc.ne_empty, hc.ne_dot, hc.ne_dots] using hrest
  | down hc hdirectory _ ih =>
      rw [walk_cons, hdirectory]
      simpa [hc.ne_empty, hc.ne_dot, hc.ne_dots] using ih
  | @last n dir c e hc hentry hdirectory hlink =>
      rw [walk_cons, hentry]
      cases e with
      | directory => exact absurd rfl hdirectory
      | link target => simp [hc.ne_empty, hc.ne_dot, hc.ne_dots, hlink target rfl]
      | _ => simp [hc.ne_empty, hc.ne_dot, hc.ne_dots]
  | @jump n dir rest c target pl hc hlink hlast _ ih =>
      have hjumps : ¬ (rest.isEmpty && !followLast) = true := by
        rw [Bool.and_eq_true, List.isEmpty_iff]
        rintro ⟨hrest, hfollow⟩
        simp [hlast hrest] at hfollow
      rw [walk_cons, hlink]
      simp only [hc.ne_empty, hc.ne_dot, hc.ne_dots, if_neg hjumps, beq_iff_eq, Bool.or_eq_true,
        or_self, if_false]
      exact ih

/-- A path is followed exactly along the walks there are. -/
theorem place_eq_ok_iff : t.place cwd followLast path = .ok pl ↔
    path ≠ "" ∧ Walks t followLast linkLimit (Path.start cwd path) (Path.components path) pl := by
  rw [place]
  by_cases hpath : path = ""
  · simp [hpath, throw, throwThe, MonadExceptOf.throw]
  · rw [if_neg (by simpa using hpath)]
    exact ⟨fun h => ⟨hpath, walks_of_walk h⟩, fun h => h.2.walk_eq⟩

/-- Where all leading parts of a path lead to directories, so does the path. -/
theorem exists_walks_of_route (h : ∀ q ∈ Path.routeFrom dir cs, t.get? q = some .directory) :
    ∃ p, Walks t followLast n dir cs (.found p .directory) := by
  fun_induction Path.routeFrom dir cs with
  | case1 dir => exact ⟨dir, .here n dir⟩
  | case2 dir c rest hc ih =>
      obtain ⟨p, hp⟩ := ih h
      exact ⟨p, .stay (by simpa using hc) hp⟩
  | case3 dir c rest hc hdots ih =>
      obtain ⟨p, hp⟩ := ih h
      obtain rfl : c = ".." := by simpa using hdots
      exact ⟨p, .up hp⟩
  | case4 dir c rest hc hdots ih =>
      rw [List.forall_mem_cons] at h
      obtain ⟨p, hp⟩ := ih h.2
      exact ⟨p, .down (settled_of_ne hc hdots) h.1 hp⟩

/-- What stands at the end of a walk: nothing at a free place, and elsewhere what was found
there. -/
def Stands (t : FileTree) : Place → Prop
  | .free p _ => t.get? p = none ∧ p ≠ []
  | .found p e => e = .directory ∨ t.get? p = some e

theorem Walks.stands (h : Walks t followLast n dir cs pl) : t.Stands pl := by
  induction h with
  | here n dir => exact .inl rfl
  | free _ hfree _ => exact ⟨hfree, by simp⟩
  | last _ hentry _ _ => exact .inr hentry
  | stay _ _ ih => exact ih
  | up _ ih => exact ih
  | down _ _ _ ih => exact ih
  | jump _ _ _ _ ih => exact ih

end Walks

section Grows

variable {t t' t'' : FileTree} {followLast : Bool} {n : Nat} {dir cs p : List String}
  {cwd path : String} {pl : Place}

/-- All entries are still there, and only files may hold other bytes. -/
def Grows (t t' : FileTree) : Prop :=
  ∀ q e, t.get? q = some e → t'.get? q = some e ∨ ∃ old new, e = .file old ∧
    t'.get? q = some (.file new)

theorem Grows.refl (t : FileTree) : Grows t t := fun _ _ h => .inl h

theorem Grows.trans (h : Grows t t') (h' : Grows t' t'') : Grows t t'' := by
  intro q e hq
  rcases h q e hq with hq' | ⟨old, new, rfl, hq'⟩
  · exact h' q e hq'
  · rcases h' q _ hq' with hq'' | ⟨-, new', -, hq''⟩
    · exact .inr ⟨old, new, rfl, hq''⟩
    · exact .inr ⟨old, new', rfl, hq''⟩

theorem Grows.get?_eq (h : Grows t t') {q : List String} {e : Entry} (hq : t.get? q = some e)
    (he : ∀ bytes, e ≠ .file bytes) : t'.get? q = some e := by
  rcases h q e hq with hq' | ⟨old, new, rfl, -⟩
  · exact hq'
  · exact absurd rfl (he old)

/-- In a tree that has grown a path leads to the same place, once a file is there. -/
theorem Walks.grows (h : Walks t followLast n dir cs pl) (hgrows : Grows t t') (hfits : pl.Fits p)
    {bytes : List UInt8} (hp : t'.get? p = some (.file bytes)) :
    Walks t' followLast n dir cs (.found p (.file bytes)) := by
  induction h with
  | here n dir => cases hfits
  | stay hc _ ih => exact .stay hc (ih hfits)
  | up _ ih => exact .up (ih hfits)
  | @free n dir rest c hc _ _ =>
      generalize hslash : (!rest.isEmpty) = slash at hfits
      cases hfits with
      | free =>
          obtain rfl : rest = [] := by simpa using hslash
          exact .last hc hp (by simp) (by simp)
  | down hc hdirectory _ ih => exact .down hc (hgrows.get?_eq hdirectory (by simp)) (ih hfits)
  | last hc _ _ _ =>
      cases hfits with
      | file old => exact .last hc hp (by simp) (by simp)
  | jump hc hlink hlast _ ih => exact .jump hc (hgrows.get?_eq hlink (by simp)) hlast (ih hfits)

end Grows

section LinkFree

variable {t : FileTree} {followLast : Bool} {n : Nat} {dir cs p : List String} {cwd path : String}
  {pl : Place}

/-- There are no links in the tree. -/
def LinkFree (t : FileTree) : Prop := ∀ q target, t.get? q ≠ some (.link target)

/-- There are no links in a tree whose list of entries holds none. -/
theorem linkFree_of_entries (h : ∀ p ∈ t.entries, ∀ target, p.2 ≠ .link target) : t.LinkFree := by
  intro q target hq
  cases q with
  | nil => simp [get?] at hq
  | cons c cs =>
      obtain ⟨front, back, hentries, -⟩ := List.lookup_eq_some_iff.mp hq
      exact h (c :: cs, .link target) (by simp [hentries]) target rfl

theorem settled_append {c : String} (hdir : ∀ d ∈ dir, Path.Settled d) (hc : Path.Settled c) :
    ∀ d ∈ dir ++ [c], Path.Settled d := by
  intro d hd
  rcases List.mem_append.mp hd with hd | hd
  · exact hdir d hd
  · obtain rfl := List.mem_singleton.mp hd
    exact hc

/-- Without links, components lead where they lead without looking at any entry. -/
theorem Walks.path_eq (h : Walks t followLast n dir cs pl) (ht : t.LinkFree)
    (hdir : ∀ c ∈ dir, Path.Settled c) :
    pl.path = Path.resolveDots true dir.reverse cs := by
  induction h with
  | here n dir => simp [Place.path, Path.resolveDots]
  | stay hc _ ih =>
      rcases hc with rfl | rfl
      · rw [Path.resolveDots_cons_empty]
        exact ih hdir
      · rw [Path.resolveDots_cons_dot]
        exact ih hdir
  | @up n dir rest pl _ ih =>
      have hreverse : ∀ k ∈ dir.reverse, Path.Settled k :=
        fun k hk => hdir k (List.mem_reverse.mp hk)
      calc pl.path = Path.resolveDots true dir.dropLast.reverse rest :=
            ih fun c hc => hdir c (List.mem_of_mem_dropLast hc)
        _ = Path.resolveDots true (dir.reverse.drop 1) rest := by
          rw [List.drop_one, List.tail_reverse]
        _ = Path.resolveDots true dir.reverse (".." :: rest) :=
          (Path.resolveDots_up hreverse 1).symm
  | free hc _ hrest =>
      rw [Path.resolveDots_cons_settled hc, Path.resolveDots_of_all_empty hrest]
      simp [Place.path]
  | down hc _ _ ih =>
      rw [Path.resolveDots_cons_settled hc, ih (settled_append hdir hc)]
      simp
  | last hc _ _ _ =>
      rw [Path.resolveDots_cons_settled hc]
      simp [Place.path, Path.resolveDots]
  | jump _ hlink _ _ _ => exact absurd hlink (ht _ _)

/-- Without links, a path leads to its normalised form. -/
theorem path_place_eq (hcwd : Path.Current cwd) (ht : t.LinkFree)
    (h : t.place cwd followLast path = .ok pl) :
    pl.path = Path.absoluteComponents cwd path := by
  rw [Path.absoluteComponents_eq_resolveDots hcwd]
  exact (place_eq_ok_iff.mp h).2.path_eq ht (Path.settled_start hcwd path)

/-- Without links, all leading parts of a path that can be followed lead to directories, save for
the place itself. -/
theorem Walks.get?_route (h : Walks t followLast n dir cs pl) (ht : t.LinkFree) :
    ∀ q ∈ Path.routeFrom dir cs, q = pl.path ∨ t.get? q = some .directory := by
  induction h with
  | here n dir => simp [Path.routeFrom]
  | stay hc _ ih =>
      rcases hc with rfl | rfl
      · exact ih
      · exact ih
  | up _ ih => exact ih
  | free hc _ hrest =>
      rw [Path.routeFrom_cons_settled hc, Path.routeFrom_of_all_empty hrest]
      simp [Place.path]
  | down hc hdirectory _ ih =>
      rw [Path.routeFrom_cons_settled hc]
      intro q hq
      rcases List.mem_cons.mp hq with rfl | hq
      · exact .inr hdirectory
      · exact ih q hq
  | last hc _ _ _ =>
      rw [Path.routeFrom_cons_settled hc]
      simp [Place.path, Path.routeFrom]
  | jump _ hlink _ _ _ => exact absurd hlink (ht _ _)

/-- Without links, all leading parts of a path to something in a directory lead to directories, up
to the last name. -/
theorem Walks.get?_route_front {c : String} {e : Entry}
    (h : Walks t followLast n dir (cs ++ [c]) (.found p e)) (he : e ≠ .directory)
    (ht : t.LinkFree) :
    Path.Settled c ∧ ∀ q ∈ Path.routeFrom dir cs, t.get? q = some .directory := by
  induction cs generalizing dir with
  | nil =>
      cases h with
      | stay _ h | up h | down _ _ h =>
          cases h
          exact absurd rfl he
      | last hc _ _ _ => exact ⟨hc, by simp [Path.routeFrom]⟩
      | jump _ hlink _ _ => exact absurd hlink (ht _ _)
  | cons d cs ih =>
      rw [List.cons_append] at h
      generalize hrest : cs ++ [c] = rest at h ih
      cases h with
      | stay hd h =>
          rcases hd with rfl | rfl
          · exact ih h
          · exact ih h
      | up h => exact ih h
      | down hd hdirectory h =>
          obtain ⟨hc, hroute⟩ := ih h
          rw [Path.routeFrom_cons_settled hd]
          exact ⟨hc, List.forall_mem_cons.mpr ⟨hdirectory, hroute⟩⟩
      | last _ _ _ _ => simp at hrest
      | jump _ hlink _ _ => exact absurd hlink (ht _ _)

/-- Without links, a place that is no directory is one to which a leading part of the path leads. -/
theorem Walks.path_mem_route (h : Walks t followLast n dir cs pl) (ht : t.LinkFree) :
    pl.path ∈ Path.routeFrom dir cs ∨ ∃ p, pl = .found p .directory := by
  induction h with
  | here n dir => exact .inr ⟨dir, rfl⟩
  | free hc _ _ => exact .inl (by simp [Path.routeFrom_cons_settled hc, Place.path])
  | last hc _ _ _ => exact .inl (by simp [Path.routeFrom_cons_settled hc, Place.path])
  | stay hc _ ih =>
      rcases hc with rfl | rfl
      · exact ih
      · exact ih
  | up _ ih => exact ih
  | down hc _ _ ih =>
      rw [Path.routeFrom_cons_settled hc]
      exact ih.imp_left (List.mem_cons_of_mem _)
  | jump _ hlink _ _ _ => exact absurd hlink (ht _ _)

end LinkFree

end FileTree

end ScriptModules
