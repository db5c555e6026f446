import ScriptModules.Proofs.FileTree.Walk
import ScriptModules.Proofs.Work

/-!
# What storing a file changes

Opening a file makes directories at free places, to which leading parts of its path lead, and leaves
an empty file where the path leads; its bytes are put there afterwards. Everything else stays as it
was, and a fault leaves at most new directories behind.
-/

namespace ScriptModules

namespace FileTree

/-- Directories are made one after the other, each at a free place to which a leading part of the
path leads. -/
inductive MakesDirectories (cwd path : String) : FileTree → FileTree → Prop where
  | refl (t : FileTree) : MakesDirectories cwd path t t
  | step {t t' : FileTree} {front : String} {q : List String} {slash : Bool} :
      Path.LeadingPart front path →
      t.place cwd false front = .ok (.free q slash) →
        MakesDirectories cwd path (t.insert q .directory) t' →
      MakesDirectories cwd path t t'

/-- The directories above a path are made, and a file is put where the path leads then. -/
def Writes (cwd path : String) (bytes : List UInt8) (t t' : FileTree) (p : List String) : Prop :=
  Path.hasNull path = false ∧ ∃ made pl, MakesDirectories cwd path t made ∧
    made.place cwd true path = .ok pl ∧ pl.Fits p ∧ t' = made.insert p (.file bytes)

section Operations

variable {t t' : FileTree} {cwd path : String} {bytes : List UInt8}

theorem onPath_eq_ok {α : Type} {x : Except FileFault α} {a : α} :
    onPath path x = .ok a ↔ Path.hasNull path = false ∧ x = .ok a := by
  rw [onPath]
  cases Path.hasNull path with
  | true => simp [throw, throwThe, MonadExceptOf.throw]
  | false => simp [mapError_eq_ok]

theorem readBytes_eq_ok : t.readBytes cwd path = .ok bytes ↔
    Path.hasNull path = false ∧ ∃ p, t.place cwd true path = .ok (.found p (.file bytes)) := by
  rw [readBytes, onPath_eq_ok, bind_eq_ok]
  apply and_congr_right'
  constructor
  · rintro ⟨pl, hpl, h⟩
    split at h
    · obtain rfl := Except.ok.inj h
      exact ⟨_, hpl⟩
    all_goals exact absurd h throw_ne_ok
  · rintro ⟨p, hp⟩
    exact ⟨_, hp, rfl⟩

theorem placeToWrite_eq_ok {p : List String} : t.placeToWrite cwd path = .ok p ↔
    Path.hasNull path = false ∧ ∃ pl, t.place cwd true path = .ok pl ∧ pl.Fits p := by
  rw [placeToWrite, onPath_eq_ok, bind_eq_ok]
  apply and_congr_right'
  constructor
  · rintro ⟨pl, hpl, h⟩
    split at h
    · obtain rfl := Except.ok.inj h
      exact ⟨_, hpl, .file _⟩
    · exact absurd h throw_ne_ok
    · exact absurd h throw_ne_ok
    · split at h
      · exact absurd h throw_ne_ok
      · rename_i hslash
        obtain rfl := Bool.eq_false_iff.mpr hslash
        obtain rfl := Except.ok.inj h
        exact ⟨_, hpl, .free⟩
  · rintro ⟨pl, hpl, hfits⟩
    refine ⟨pl, hpl, ?_⟩
    cases hfits with
    | file old => rfl
    | free => rfl

theorem makeDirectory_eq_ok (h : t.makeDirectory cwd path = .ok t') :
    ∃ q slash, t.place cwd false path = .ok (.free q slash) ∧ t' = t.insert q .directory := by
  rw [makeDirectory, onPath_eq_ok, bind_eq_ok] at h
  obtain ⟨-, pl, hpl, h⟩ := h
  split at h
  · exact absurd h throw_ne_ok
  · exact ⟨_, _, hpl, (Except.ok.inj h).symm⟩

theorem MakesDirectories.trans {t'' : FileTree} (h : MakesDirectories cwd path t t')
    (h' : MakesDirectories cwd path t' t'') : MakesDirectories cwd path t t'' := by
  induction h with
  | refl t => exact h'
  | step hfront hfree _ ih => exact .step hfront hfree (ih h')

theorem MakesDirectories.of_leadingPart {front : String} (h : MakesDirectories cwd front t t')
    (hfront : Path.LeadingPart front path) : MakesDirectories cwd path t t' := by
  induction h with
  | refl t => exact .refl t
  | step hpart hfree _ ih => exact .step (hpart.trans hfront) hfree ih

theorem makesDirectories_ensureDirectory (t : FileTree) (cwd path : String) :
    MakesDirectories cwd path t (t.ensureDirectory cwd path).1 := by
  rw [ensureDirectory]
  split
  · rename_i t' h
    obtain ⟨q, slash, hfree, rfl⟩ := makeDirectory_eq_ok h
    exact .step (.refl path) hfree (.refl _)
  · exact .refl t

theorem makesDirectories_makeDirectoriesFrom (cwd : String) (n : Nat) (path : String)
    (t : FileTree) :
    MakesDirectories cwd path t (makeDirectoriesFrom cwd n path t).1 := by
  induction n generalizing path t with
  | zero => exact .refl t
  | succ n ih =>
      have hhead : MakesDirectories cwd path t (makeDirectoriesFrom cwd n (splitLast path).1 t).1 :=
        (ih (splitLast path).1 t).of_leadingPart (Path.leadingPart_splitLast path)
      rw [makeDirectoriesFrom]
      generalize splitLast path = split at hhead
      obtain ⟨head, tail⟩ := split
      simp only
      split
      · split
        · exact hhead
        · split
          · exact hhead
          · exact hhead.trans (makesDirectories_ensureDirectory _ cwd path)
      · exact makesDirectories_ensureDirectory t cwd path

/-- A path whose leading parts all lead to directories leads to one. -/
theorem exists_place_of_route (followLast : Bool) (hpath : path ≠ "")
    (h : ∀ q ∈ Path.route cwd path, t.get? q = some .directory) :
    ∃ p, t.place cwd followLast path = .ok (.found p .directory) := by
  rw [Path.route, Path.routeFrom_parts] at h
  obtain ⟨p, hp⟩ := exists_walks_of_route h
  exact ⟨p, place_eq_ok_iff.mpr ⟨hpath, hp⟩⟩

/-- A directory that is there is not made again. -/
theorem makeDirectories_of_route (hpath : path ≠ "")
    (h : ∀ q ∈ Path.route cwd path, t.get? q = some .directory) :
    t.makeDirectories cwd path = (t, none) := by
  have hensure : t.ensureDirectory cwd path = (t, none) := by
    obtain ⟨p, hp⟩ := exists_place_of_route false hpath h
    obtain ⟨q, hq⟩ := exists_place_of_route true hpath h
    have hmake : ∀ t', t.makeDirectory cwd path ≠ .ok t' := by
      intro t' h
      obtain ⟨q, slash, hfree, -⟩ := makeDirectory_eq_ok h
      simp [hp] at hfree
    have hthere : t.hasDirectory cwd path = true := by
      rw [hasDirectory, entryAt?, hq]
      rfl
    rw [ensureDirectory]
    split
    · rename_i h
      exact absurd h (hmake _)
    · simp only [hthere, if_true]
  have hhead : (splitLast path).1 ≠ "" → t.hasEntry cwd (splitLast path).1 = true := by
    intro hne
    obtain ⟨p, hp⟩ := exists_place_of_route true hne fun q hq =>
      h q ((Path.leadingPart_splitLast path).route_subset cwd hq)
    rw [hasEntry, entryAt?, hp]
    rfl
  rw [makeDirectories, makeDirectoriesFrom]
  generalize splitLast path = split at hhead
  obtain ⟨head, tail⟩ := split
  simp only
  rw [if_neg]
  · exact hensure
  · intro hmissing
    simp only [Bool.and_eq_true, Bool.not_eq_true', String.isEmpty_eq_false_iff] at hmissing
    simp [hhead hmissing.1.1] at hmissing

/-- The current directory is there. -/
theorem makeDirectories_dot (t : FileTree) (cwd : String) : t.makeDirectories cwd "." = (t, none) :=
  makeDirectories_of_route (by decide) (by
    have hroute : Path.route cwd "." = [] := rfl
    simp [hroute])

/-- Making the directories above a path makes leading parts of it. -/
theorem makesDirectories_parent (t : FileTree) (cwd path : String) : MakesDirectories cwd path t
    (t.makeDirectories cwd (if (Path.parent path).isEmpty then "." else Path.parent path)).1 := by
  split
  · rw [makeDirectories_dot]
    exact .refl t
  · exact (makesDirectories_makeDirectoriesFrom cwd _ _ t).of_leadingPart
      (Path.leadingPart_parent path)

/-- A file is opened in its place without making a directory, where there are no links. -/
theorem openFile_over {p : List String} {old : List UInt8} (ht : t.LinkFree)
    (hnull : Path.hasNull path = false) (h : t.place cwd true path = .ok (.found p (.file old))) :
    t.openFile cwd path = (t.insert p (.file []), .ok p) := by
  obtain ⟨cs, hcs⟩ := Path.exists_components_eq path
  obtain ⟨hpath, hwalks⟩ := place_eq_ok_iff.mp h
  rw [hcs] at hwalks
  obtain ⟨hname, hroute⟩ := hwalks.get?_route_front (by simp) ht
  rw [← Path.route_parent hcs hname.ne_empty] at hroute
  have hmade :
      t.makeDirectories cwd (if (Path.parent path).isEmpty then "." else Path.parent path) =
        (t, none) := by
    split
    · exact makeDirectories_dot t cwd
    · rename_i hne
      exact makeDirectories_of_route (by simpa using hne) hroute
  have hplace : t.placeToWrite cwd path = .ok p := placeToWrite_eq_ok.mpr ⟨hnull, _, h, .file old⟩
  unfold openFile
  simp only [hmade, hplace]

/-- Opening a file leaves it empty, or leaves at most new directories behind. -/
theorem openFile_cases (t : FileTree) (cwd path : String) :
    (∃ opened p, t.openFile cwd path = (opened, .ok p) ∧ Writes cwd path [] t opened p) ∨
      ∃ opened e, t.openFile cwd path = (opened, .error e) ∧
        MakesDirectories cwd path t opened := by
  have hmade := makesDirectories_parent t cwd path
  generalize hdirectories :
    t.makeDirectories cwd (if (Path.parent path).isEmpty then "." else Path.parent path) =
      directories at hmade
  obtain ⟨made, fault⟩ := directories
  unfold openFile
  simp only [hdirectories]
  cases fault with
  | some e => exact .inr ⟨made, e, rfl, hmade⟩
  | none =>
      cases hplace : made.placeToWrite cwd path with
      | ok p =>
          obtain ⟨hnull, pl, hpl, hfits⟩ := placeToWrite_eq_ok.mp hplace
          exact .inl ⟨_, p, by simp only [hplace], hnull, made, pl, hmade, hpl, hfits, rfl⟩
      | error e => exact .inr ⟨made, e, by simp only [hplace], hmade⟩

theorem insert_insert (t : FileTree) (p : List String) (e e' : Entry) :
    (t.insert p e).insert p e' = t.insert p e' := by
  simp [insert, List.filter_filter]

/-- The bytes that are put into an open file are all that it holds. -/
theorem Writes.insert {old : List UInt8} {p : List String} (h : Writes cwd path old t t' p)
    (bytes : List UInt8) : Writes cwd path bytes t (t'.insert p (.file bytes)) p := by
  obtain ⟨hnull, made, pl, hmade, hpl, hfits, rfl⟩ := h
  exact ⟨hnull, made, pl, hmade, hpl, hfits, insert_insert made p (.file old) (.file bytes)⟩

end Operations

section Effects

variable {t t' : FileTree} {cwd path : String} {bytes : List UInt8} {p q : List String}

theorem linkFree_insert {e : Entry} (ht : t.LinkFree) (hq : q ≠ [])
    (he : ∀ target, e ≠ .link target) :
    (t.insert q e).LinkFree := by
  intro other target
  rw [get?_insert hq]
  split
  · simpa using he target
  · exact ht other target

/-- New directories stand at places that were free, to which leading parts of the path lead where
there are no links; all else stays. -/
theorem MakesDirectories.get?_cases (h : MakesDirectories cwd path t t') (q : List String) :
    t'.get? q = t.get? q ∨
      (t.get? q = none ∧ t'.get? q = some .directory ∧ (t.LinkFree → q ∈ Path.route cwd path)) := by
  induction h with
  | refl t => exact .inl rfl
  | @step t t' front made slash hfront hfree _ ih =>
      obtain ⟨-, hwalks⟩ := place_eq_ok_iff.mp hfree
      obtain ⟨hnone, hne⟩ : t.get? made = none ∧ made ≠ [] := hwalks.stands
      have hroute (ht : t.LinkFree) : made ∈ Path.route cwd path := by
        apply hfront.route_subset cwd
        rw [Path.route, Path.routeFrom_parts]
        exact (hwalks.path_mem_route ht).resolve_right (by simp)
      rw [get?_insert hne] at ih
      by_cases hq : q = made
      · subst hq
        simp only [if_true] at ih
        rcases ih with ih | ⟨ih, -⟩
        · exact .inr ⟨hnone, ih, hroute⟩
        · simp at ih
      · rw [if_neg hq] at ih
        refine ih.imp_right ?_
        rintro ⟨hfree', hmade, hroute'⟩
        exact ⟨hfree', hmade, fun ht => hroute' (linkFree_insert ht hne (by simp))⟩

theorem MakesDirectories.get?_eq (h : MakesDirectories cwd path t t') {e : Entry}
    (hq : t.get? q = some e) :
    t'.get? q = some e := by
  rcases h.get?_cases q with hsame | ⟨hfree, -⟩
  · exact hsame.trans hq
  · simp [hfree] at hq

theorem MakesDirectories.grows (h : MakesDirectories cwd path t t') : Grows t t' :=
  fun _ _ hq => .inl (h.get?_eq hq)

theorem MakesDirectories.linkFree (h : MakesDirectories cwd path t t') (ht : t.LinkFree) :
    t'.LinkFree := by
  intro q target hq
  rcases h.get?_cases q with hsame | ⟨-, hmade, -⟩
  · exact ht q target (hsame.symm.trans hq)
  · simp [hmade] at hq

theorem ne_nil_of_fits {pl : Place} (h : t.Stands pl) (hfits : pl.Fits p) : p ≠ [] := by
  cases hfits with
  | free => exact h.2
  | file old =>
      rintro rfl
      simp [Stands, get?] at h

/-- A file takes the place of another file or of nothing. -/
theorem grows_insert {pl : Place} (h : t.Stands pl) (hfits : pl.Fits p) :
    Grows t (t.insert p (.file bytes)) := by
  intro q e hq
  rw [get?_insert (ne_nil_of_fits h hfits)]
  by_cases hqp : q = p
  · subst hqp
    rw [if_pos rfl]
    cases hfits with
    | free => simp [h.1] at hq
    | file old =>
        have hold : t.get? q = some (.file old) := by simpa [Stands] using h
        obtain rfl := Option.some.inj (hold.symm.trans hq)
        exact .inr ⟨old, bytes, rfl, rfl⟩
  · rw [if_neg hqp]
    exact .inl hq

/-- The bytes stand where the path leads; elsewhere only directories are new. -/
theorem Writes.get?_cases (h : Writes cwd path bytes t t' p) (q : List String) :
    (q = p ∧ t'.get? q = some (.file bytes)) ∨ t'.get? q = t.get? q ∨
      (t.get? q = none ∧ t'.get? q = some .directory ∧ (t.LinkFree → q ∈ Path.route cwd path)) := by
  obtain ⟨-, made, pl, hmade, hpl, hfits, rfl⟩ := h
  rw [get?_insert (ne_nil_of_fits (place_eq_ok_iff.mp hpl).2.stands hfits)]
  by_cases hq : q = p
  · exact .inl ⟨hq, if_pos hq⟩
  · rw [if_neg hq]
    exact .inr (hmade.get?_cases q)

theorem Writes.get?_eq (h : Writes cwd path bytes t t' p) : t'.get? p = some (.file bytes) := by
  obtain ⟨-, made, pl, -, hpl, hfits, rfl⟩ := h
  rw [get?_insert (ne_nil_of_fits (place_eq_ok_iff.mp hpl).2.stands hfits), if_pos rfl]

theorem Writes.grows (h : Writes cwd path bytes t t' p) : Grows t t' := by
  obtain ⟨-, made, pl, hmade, hpl, hfits, rfl⟩ := h
  exact hmade.grows.trans (grows_insert (place_eq_ok_iff.mp hpl).2.stands hfits)

theorem Writes.linkFree (h : Writes cwd path bytes t t' p) (ht : t.LinkFree) : t'.LinkFree := by
  obtain ⟨-, made, pl, hmade, hpl, hfits, rfl⟩ := h
  exact linkFree_insert (hmade.linkFree ht) (ne_nil_of_fits (place_eq_ok_iff.mp hpl).2.stands hfits)
    (by simp)

/-- The path of a file that was written leads to it, however the tree grows afterwards. -/
theorem Writes.place_eq {t'' : FileTree} (h : Writes cwd path bytes t t' p) (hgrows : Grows t' t'')
    {new : List UInt8} (hp : t''.get? p = some (.file new)) :
    t''.place cwd true path = .ok (.found p (.file new)) := by
  obtain ⟨-, made, pl, -, hpl, hfits, rfl⟩ := h
  obtain ⟨hpath, hwalks⟩ := place_eq_ok_iff.mp hpl
  have hall : Grows made t'' := (grows_insert hwalks.stands hfits).trans hgrows
  exact place_eq_ok_iff.mpr ⟨hpath, hwalks.grows hall hfits hp⟩

end Effects

end FileTree

end ScriptModules
