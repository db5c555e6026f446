import ScriptModules.Proofs.FileTree.Store
import Mathlib.Data.List.Nodup
import Mathlib.Data.List.Perm.Basic

/-!
# Well-formed file trees

In a well-formed tree no path has two entries, names are such that a path can hold them, and every
entry stands in a directory. Storing a file keeps a tree well-formed, as files and directories are
only put where a path leads. The names in a directory of such a tree are those of its entries, each
once and in order.
-/

namespace ScriptModules

/-- A name that can be a component of a path. -/
def Path.IsName (c : String) : Prop := Settled c ∧ '/' ∉ c.toList

instance (c : String) : Decidable (Path.IsName c) := inferInstanceAs (Decidable (_ ∧ _))

theorem Path.not_mem_of_mem_components {p c : String} (h : c ∈ components p) : '/' ∉ c.toList := by
  obtain ⟨l, hl, rfl⟩ := List.mem_map.mp h
  intro hslash
  exact (Text.mem_of_mem_splitOn hl (by simpa using hslash)).2 rfl

namespace FileTree

/-- The entries form a tree. -/
structure WellFormed (t : FileTree) : Prop where
  nodup : (t.entries.map (·.1)).Nodup
  names : ∀ q e, t.get? q = some e → ∀ c ∈ q, Path.IsName c
  parent : ∀ q e, t.get? q = some e → t.get? q.dropLast = some .directory

section Entries

variable {t : FileTree} {p q r : List String} {e : Entry}

theorem isSome_get?_iff (hq : q ≠ []) : (t.get? q).isSome = true ↔ q ∈ t.entries.map (·.1) := by
  obtain ⟨c, cs, rfl⟩ := List.exists_cons_of_ne_nil hq
  have hget : t.get? (c :: cs) = t.entries.lookup (c :: cs) := rfl
  rw [hget, List.lookup_isSome_iff, List.mem_map]
  constructor
  · rintro ⟨p, hp, heq⟩
    exact ⟨p, hp, (eq_of_beq heq).symm⟩
  · rintro ⟨p, hp, heq⟩
    exact ⟨p, hp, by simp [heq]⟩

/-- A tree is well-formed if its list of entries shows it. -/
theorem wellFormed_of_entries (hnodup : (t.entries.map (·.1)).Nodup)
    (h : ∀ p ∈ t.entries, (∀ c ∈ p.1, Path.IsName c) ∧ t.get? p.1.dropLast = some .directory) :
    t.WellFormed := by
  have hentry : ∀ q e, t.get? q = some e → q ≠ [] → ∃ p ∈ t.entries, p.1 = q := by
    intro q e hq hne
    have hmem := (isSome_get?_iff hne).mp (by rw [hq]; rfl)
    exact List.mem_map.mp hmem
  refine ⟨hnodup, fun q e hq => ?_, fun q e hq => ?_⟩
  · cases q with
    | nil => simp
    | cons c cs =>
        obtain ⟨p, hp, heq⟩ := hentry _ _ hq (by simp)
        exact heq ▸ (h p hp).1
  · cases q with
    | nil => rfl
    | cons c cs =>
        obtain ⟨p, hp, heq⟩ := hentry _ _ hq (by simp)
        exact heq ▸ (h p hp).2

/-- Everything above an entry is a directory. -/
theorem WellFormed.get?_of_append (ht : t.WellFormed) (hr : r ≠ []) (h : t.get? (p ++ r) = some e) :
    t.get? p = some .directory := by
  induction r using List.reverseRecOn generalizing e with
  | nil => exact absurd rfl hr
  | append_singleton r c ih =>
      have hparent := ht.parent _ _ h
      rw [← List.append_assoc, List.dropLast_concat] at hparent
      by_cases hr : r = []
      · simpa [hr] using hparent
      · exact ih hr hparent

/-- An entry is put into a directory, at a place that is not a directory itself. -/
theorem WellFormed.insert {dir : List String} {c : String} (ht : t.WellFormed)
    (hdir : t.get? dir = some .directory) (hc : Path.IsName c)
    (hplace : t.get? (dir ++ [c]) ≠ some .directory) :
    (t.insert (dir ++ [c]) e).WellFormed := by
  have hne : dir ++ [c] ≠ [] := by simp
  refine ⟨?_, fun q e' hq => ?_, fun q e' hq => ?_⟩
  · have hrest : ((t.entries.filter fun p => p.1 != dir ++ [c]).map (·.1)).Nodup :=
      ht.nodup.sublist (List.filter_sublist.map _)
    refine List.nodup_cons.mpr ⟨?_, hrest⟩
    intro hmem
    obtain ⟨p, hp, heq⟩ := List.mem_map.mp hmem
    simpa [heq] using (List.mem_filter.mp hp).2
  · rw [get?_insert hne] at hq
    split at hq
    · rename_i heq
      subst heq
      intro d hd
      rcases List.mem_append.mp hd with hd | hd
      · exact ht.names _ _ hdir d hd
      · obtain rfl := List.mem_singleton.mp hd
        exact hc
    · exact ht.names q e' hq
  · rw [get?_insert hne] at hq ⊢
    split at hq
    · rename_i heq
      subst heq
      rw [List.dropLast_concat, if_neg (by simp)]
      exact hdir
    · have hparent := ht.parent q e' hq
      rw [if_neg]
      · exact hparent
      · intro heq
        exact hplace (heq ▸ hparent)

end Entries

section Walks

variable {t t' : FileTree} {followLast : Bool} {n : Nat} {dir cs p : List String}
  {cwd path : String} {pl : Place}

/-- Without links, a walk that starts in a directory finds what is there. -/
theorem Walks.get?_found {e : Entry} (h : Walks t followLast n dir cs (.found p e))
    (ht : t.WellFormed) (hlinks : t.LinkFree) (hdir : t.get? dir = some .directory) :
    t.get? p = some e := by
  generalize hpl : Place.found p e = pl at h
  induction h with
  | here n dir =>
      obtain ⟨rfl, rfl⟩ := Place.found.inj hpl
      exact hdir
  | stay _ _ ih => exact ih hdir hpl
  | up _ ih => exact ih (ht.parent _ _ hdir) hpl
  | free _ _ _ => cases hpl
  | down _ hdirectory _ ih => exact ih hdirectory hpl
  | last _ hentry _ _ =>
      obtain ⟨rfl, rfl⟩ := Place.found.inj hpl
      exact hentry
  | jump _ hlink _ _ _ => exact absurd hlink (hlinks _ _)

/-- Without links, a walk that starts in a directory ends at a directory, or in one. -/
theorem Walks.stands_in (h : Walks t followLast n dir cs pl) (ht : t.WellFormed)
    (hlinks : t.LinkFree) (hdir : t.get? dir = some .directory) (hcs : ∀ c ∈ cs, '/' ∉ c.toList) :
    (∃ p, pl = .found p .directory) ∨
      ∃ d c, pl.path = d ++ [c] ∧ t.get? d = some .directory ∧ Path.IsName c := by
  have hrest {c : String} {rest : List String} (h : ∀ d ∈ c :: rest, '/' ∉ d.toList) :
      ∀ d ∈ rest, '/' ∉ d.toList :=
    fun d hd => h d (List.mem_cons_of_mem _ hd)
  induction h with
  | here n dir => exact .inl ⟨dir, rfl⟩
  | stay _ _ ih => exact ih hdir (hrest hcs)
  | up _ ih => exact ih (ht.parent _ _ hdir) (hrest hcs)
  | @free n dir rest c hc _ _ => exact .inr ⟨dir, c, rfl, hdir, hc, hcs c (by simp)⟩
  | down _ hdirectory _ ih => exact ih hdirectory (hrest hcs)
  | @last n dir c e hc _ _ _ => exact .inr ⟨dir, c, rfl, hdir, hc, hcs c (by simp)⟩
  | jump _ hlink _ _ _ => exact absurd hlink (hlinks _ _)

/-- The current directory is there. -/
def HasCurrent (t : FileTree) (cwd : String) : Prop := t.get? (Path.parts cwd) = some .directory

theorem HasCurrent.get?_start (h : t.HasCurrent cwd) (path : String) :
    t.get? (Path.start cwd path) = some .directory := by
  rw [Path.start]
  split
  · rfl
  · exact h

theorem HasCurrent.grows (h : t.HasCurrent cwd) (hgrows : Grows t t') : t'.HasCurrent cwd :=
  hgrows.get?_eq h (by simp)

/-- Where a path leads, but for a directory, is a name in a directory. -/
theorem place_stands_in (ht : t.WellFormed) (hlinks : t.LinkFree) (hcwd : t.HasCurrent cwd)
    (h : t.place cwd followLast path = .ok pl) :
    (∃ p, pl = .found p .directory) ∨
      ∃ d c, pl.path = d ++ [c] ∧ t.get? d = some .directory ∧ Path.IsName c :=
  (place_eq_ok_iff.mp h).2.stands_in ht hlinks (hcwd.get?_start path) fun _ =>
    Path.not_mem_of_mem_components

theorem MakesDirectories.wellFormed (h : MakesDirectories cwd path t t') (ht : t.WellFormed)
    (hlinks : t.LinkFree) (hcwd : t.HasCurrent cwd) : t'.WellFormed := by
  induction h with
  | refl t => exact ht
  | @step t t' front q slash _ hfree _ ih =>
      obtain ⟨hnone, hne⟩ : t.get? q = none ∧ q ≠ [] := (place_eq_ok_iff.mp hfree).2.stands
      obtain ⟨d, c, rfl, hd, hc⟩ := (place_stands_in ht hlinks hcwd hfree).resolve_left (by simp)
      refine ih (ht.insert hd hc (by rw [hnone]; simp)) (linkFree_insert hlinks hne (by simp)) ?_
      rw [HasCurrent, get?_insert hne, if_neg]
      · exact hcwd
      · intro heq
        rw [HasCurrent, heq, hnone] at hcwd
        cases hcwd

theorem Writes.wellFormed {bytes : List UInt8} (h : Writes cwd path bytes t t' p)
    (ht : t.WellFormed) (hlinks : t.LinkFree) (hcwd : t.HasCurrent cwd) : t'.WellFormed := by
  obtain ⟨-, made, pl, hmade, hpl, hfits, rfl⟩ := h
  have hstands := (place_eq_ok_iff.mp hpl).2.stands
  have hplaced := place_stands_in (hmade.wellFormed ht hlinks hcwd) (hmade.linkFree hlinks)
    (hcwd.grows hmade.grows) hpl
  have hmade := hmade.wellFormed ht hlinks hcwd
  cases hfits with
  | free =>
      obtain ⟨d, c, rfl, hd, hc⟩ := hplaced.resolve_left (by simp)
      exact hmade.insert hd hc (by rw [hstands.1]; simp)
  | file old =>
      obtain ⟨d, c, rfl, hd, hc⟩ := hplaced.resolve_left (by simp)
      have hold := hstands.resolve_left (by simp)
      exact hmade.insert hd hc (by rw [hold]; simp)

end Walks

section Names

variable {t t' : FileTree} {dir : List String} {name : String}

theorem childName?_eq_some {path : List String} :
    childName? dir path = some name ↔ path = dir ++ [name] := by
  rw [childName?]
  constructor
  · intro h
    split at h
    · rename_i hpre
      obtain ⟨r, rfl⟩ := List.isPrefixOf_iff_prefix.mp hpre
      rw [List.drop_left] at h
      split at h
      · rw [Option.some.inj h]
      · cases h
    · cases h
  · rintro rfl
    simp

theorem mem_names : name ∈ t.names dir ↔ (t.get? (dir ++ [name])).isSome = true := by
  rw [isSome_get?_iff (by simp), names, List.mem_mergeSort, List.mem_filterMap, List.mem_map]
  simp only [childName?_eq_some]

/-- A name stands once in a directory. -/
theorem WellFormed.nodup_names (ht : t.WellFormed) (dir : List String) : (t.names dir).Nodup := by
  have hmap : (t.entries.filterMap fun p => childName? dir p.1) =
      (t.entries.map (·.1)).filterMap (childName? dir) := by
    rw [List.filterMap_map]
    rfl
  rw [FileTree.names, (List.mergeSort_perm _ _).nodup_iff, hmap]
  refine ht.nodup.filterMap fun p q name hp hq => ?_
  rw [childName?_eq_some.mp hp, childName?_eq_some.mp hq]

theorem pairwise_names (t : FileTree) (dir : List String) : (t.names dir).Pairwise (· ≤ ·) := by
  have htrans (a b c : String) (hab : nameLe a b = true) (hbc : nameLe b c = true) :
      nameLe a c = true := by
    rw [nameLe, decide_eq_true_eq] at *
    exact String.le_trans hab hbc
  have htotal (a b : String) : (nameLe a b || nameLe b a) = true := by
    simpa [nameLe] using String.le_total a b
  exact (List.pairwise_mergeSort htrans htotal _).imp fun h => by simpa [nameLe] using h

/-- In a tree with more entries the names that were there stand in the same order. -/
theorem names_eq_filter (ht : t.WellFormed) (ht' : t'.WellFormed)
    (h : ∀ name, (t.get? (dir ++ [name])).isSome = true → (t'.get? (dir ++ [name])).isSome = true) :
    t.names dir = (t'.names dir).filter fun name => (t.get? (dir ++ [name])).isSome := by
  have hmem : ∀ name, name ∈ t.names dir ↔
      name ∈ (t'.names dir).filter fun name => (t.get? (dir ++ [name])).isSome := by
    intro name
    rw [List.mem_filter, mem_names, mem_names]
    exact ⟨fun hname => ⟨h name hname, hname⟩, fun hname => hname.2⟩
  have hperm :=
    (List.perm_ext_iff_of_nodup (ht.nodup_names dir) ((ht'.nodup_names dir).filter _)).mpr hmem
  exact hperm.eq_of_pairwise (fun a b _ _ hab hba => String.le_antisymm hab hba)
    (t.pairwise_names dir)
    ((t'.pairwise_names dir).filter _)

end Names

end FileTree

end ScriptModules
