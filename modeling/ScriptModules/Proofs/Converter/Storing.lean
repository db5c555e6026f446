import ScriptModules.Proofs.Converter.Run
import ScriptModules.Proofs.FileTree.Store
import Mathlib.Data.List.Nodup

/-!
# What the second pass leaves behind

The second pass writes the files of the records one after the other, up to the first failure, and
counts and lists them on the way. The output path of every file that was written leads to it in the
tree that is left; the file holds its content if no later one took its place. A script whose text
cannot be encoded leaves its own file empty. All other files are as they were, and only directories
are new.
-/

namespace ScriptModules

/-- The place to which a path leads. -/
def FileTree.landing (t : FileTree) (cwd path : String) : Option (List String) :=
  (t.entryAt? cwd path).map (·.1)

/-- The files of some records are converted and written one after the other. -/
inductive WritesAll (encode : Encoder) (o : Options) (cwd : String) (exportMap : ExportMap) :
    FileTree → List FileRecord → FileTree → Prop where
  | nil (t : FileTree) : WritesAll encode o cwd exportMap t [] t
  | cons {t t' t'' : FileTree} {r : FileRecord} {rest : List FileRecord} {bytes : List UInt8}
      {p : List String} :
      writtenBytes encode o cwd exportMap r = .ok bytes → t.Writes cwd r.outputPath bytes t' p →
      WritesAll encode o cwd exportMap t' rest t'' →
      WritesAll encode o cwd exportMap t (r :: rest) t''

/-- The text of a script cannot be encoded. -/
def FileRecord.Unencodable (encode : Encoder) (o : Options) (cwd : String) (exportMap : ExportMap)
    (r : FileRecord) (f : Failure) : Prop :=
  r.source.isScript = true ∧ ∃ text message,
    (convertScript o cwd exportMap r).run.value = .ok text ∧ encode text = .error message ∧
      f = .unencodable message

/-- An attempt to store a file is given up: at most directories were made, or the file was opened
and left empty. The list has the paths of the files that were opened. -/
inductive FileTree.GivesUp (cwd path : String) (t t' : FileTree) : List String → Prop where
  | closed : t.MakesDirectories cwd path t' → GivesUp cwd path t t' []
  | opened {p : List String} : t.Writes cwd path [] t' p → GivesUp cwd path t t' [path]

namespace Result

/-- The result after some more files: the scripts and the other files are counted, and the outputs
are listed. -/
def extended (result : Result) (records : List FileRecord) : Result where
  tally := { result.tally with
    converted := result.tally.converted + records.countP (·.source.isScript)
    copied := result.tally.copied + records.countP (!·.source.isScript) }
  outputs := result.outputs ++ records.map (·.outputPath)

theorem extended_nil (result : Result) : result.extended [] = result := by
  simp [extended]

/-- Counting and listing one file comes before the others. -/
theorem extended_cons (result : Result) (r : FileRecord) (rest : List FileRecord) :
    result.extended (r :: rest) = ((result.count r).addOutput r.outputPath).extended rest := by
  cases hscript : r.source.isScript with
  | true => simp +arith [extended, count, addOutput, hscript]
  | false => simp +arith [extended, count, addOutput, hscript]

end Result

section Pass

variable {encode : Encoder} {o : Options} {cwd : String} {exportMap : ExportMap} {t : FileTree}
  {result : Result} {records : List FileRecord}

theorem unencodable_of_encoded {r : FileRecord} {content : Content} {f : Failure}
    (hcontent : (contentOf encode o cwd exportMap r).run.value = .ok content)
    (h : content.encoded encode = .error f) : r.Unencodable encode o cwd exportMap f := by
  rw [contentOf] at hcontent
  split at hcontent
  · rename_i hscript
    obtain ⟨text, htext, hcontent⟩ := Work.value_bind_eq_ok.mp hcontent
    obtain rfl := Except.ok.inj hcontent
    obtain ⟨message, hmessage, rfl⟩ := mapError_eq_error.mp h
    exact ⟨hscript, text, message, htext, hmessage, rfl⟩
  · obtain ⟨banner, -, hcontent⟩ := Work.value_bind_eq_ok.mp hcontent
    obtain rfl := Except.ok.inj hcontent
    cases h

/-- A file is written, counted and listed, or it is given up; an open file is given up only because
its text cannot be encoded. -/
theorem storeRecord_cases (encode : Encoder) (o : Options) (cwd : String) (exportMap : ExportMap)
    (t : FileTree) (result : Result) (r : FileRecord) :
    let stored := storeRecord encode o cwd exportMap t result r
    (stored.failure = none ∧ stored.result = (result.count r).addOutput r.outputPath ∧ ∃ bytes p,
      writtenBytes encode o cwd exportMap r = .ok bytes ∧
        t.Writes cwd r.outputPath bytes stored.tree p) ∨
      ∃ f opened, stored.failure = some f ∧ t.GivesUp cwd r.outputPath stored.tree opened ∧
        (opened = [] ∨ r.Unencodable encode o cwd exportMap f) := by
  rw [storeRecord]
  cases hcontent : (contentOf encode o cwd exportMap r).run.value with
  | error f => exact .inr ⟨f, [], rfl, .closed (.refl t), .inl rfl⟩
  | ok content =>
      rcases t.openFile_cases cwd r.outputPath with
        ⟨opened, p, hopen, hwrites⟩ | ⟨opened, e, hopen, hmade⟩
      · simp only [hopen]
        cases hbytes : content.encoded encode with
        | error f =>
            have hrefused := unencodable_of_encoded hcontent hbytes
            exact .inr ⟨f, _, rfl, .opened hwrites, .inr hrefused⟩
        | ok bytes =>
            have hwritten := writtenBytes_eq_ok.mpr ⟨content, hcontent, hbytes⟩
            exact .inl ⟨rfl, rfl, bytes, p, hwritten, hwrites.insert bytes⟩
      · simp only [hopen]
        exact .inr ⟨.file e, [], rfl, .closed hmade, .inl rfl⟩

/-- The second pass writes, counts and lists all files, or those before the first that fails. -/
theorem storeAll_cases (encode : Encoder) (o : Options) (cwd : String) (exportMap : ExportMap)
    (t : FileTree) (result : Result) (records : List FileRecord) :
    let stored := storeAll encode o cwd exportMap t result records
    (stored.failure = none ∧ stored.result = result.extended records ∧
      WritesAll encode o cwd exportMap t records stored.tree) ∨
      ∃ done r rest f opened, records = done ++ r :: rest ∧ stored.failure = some f ∧
        let before := storeAll encode o cwd exportMap t result done
        before.failure = none ∧ WritesAll encode o cwd exportMap t done before.tree ∧
        (storeRecord encode o cwd exportMap before.tree before.result r).failure = some f ∧
        before.tree.GivesUp cwd r.outputPath stored.tree opened ∧
        (opened = [] ∨ r.Unencodable encode o cwd exportMap f) := by
  induction records generalizing t result with
  | nil => exact .inl ⟨rfl, result.extended_nil.symm, .nil t⟩
  | cons r rest ih =>
      rw [storeAll]
      rcases storeRecord_cases encode o cwd exportMap t result r with
        ⟨hnone, hresult, bytes, p, hbytes, hwrites⟩ | ⟨f, opened, hfailure, hleft⟩
      · simp only [hnone]
        rcases ih (storeRecord encode o cwd exportMap t result r).tree
            (storeRecord encode o cwd exportMap t result r).result with
          ⟨hdone, hrest, hall⟩ |
            ⟨done, r', rest', f, opened, rfl, hfailure, hdone, hwritten, hfails, hleft⟩
        · refine .inl ⟨hdone, hrest.trans ?_, .cons hbytes hwrites hall⟩
          rw [hresult, Result.extended_cons]
        · refine .inr ⟨r :: done, r', rest', f, opened, rfl, hfailure, ?_⟩
          simp only [storeAll, hnone]
          exact ⟨hdone, .cons hbytes hwrites hwritten, hfails, hleft⟩
      · simp only [hfailure]
        exact .inr ⟨[], r, rest, f, opened, rfl, rfl, rfl, .nil t, hfailure, hleft⟩

/-- Without a failure all files are written, counted and listed. -/
theorem writesAll_of_failure_eq_none
    (h : (storeAll encode o cwd exportMap t result records).failure = none) :
    (storeAll encode o cwd exportMap t result records).result = result.extended records ∧
      WritesAll encode o cwd exportMap t records
        (storeAll encode o cwd exportMap t result records).tree := by
  rcases storeAll_cases encode o cwd exportMap t result records with
    ⟨-, hdone⟩ | ⟨-, -, -, f, -, -, hfails, -⟩
  · exact hdone
  · rw [h] at hfails
    cases hfails

/-- A conversion without a failure has two passes without one: it writes, counts and lists the files
of all records. -/
theorem Converter.exists_passes {c : Converter}
    (h : (c.convertWith encode cwd t).failure = none) :
    ∃ s, (Scan.run c.options cwd t).run.value = .ok s ∧
      let records := s.files.map (·.2)
      let exportMap := (ExportMap.build records).value
      (c.convertWith encode cwd t).converter = { c with
        files := s.files
        exportMap := exportMap
        result := some ((s.result exportMap).extended records) } ∧
      WritesAll encode c.options cwd exportMap t records (c.convertWith encode cwd t).tree := by
  rcases c.convertWith_cases encode cwd t with
    ⟨f, -, hfailure, -⟩ | ⟨s, hscan, hfailure, htree, hconverter⟩
  · simp [hfailure] at h
  · rw [hfailure] at h
    rw [hconverter, htree]
    obtain ⟨hresult, hwrites⟩ := writesAll_of_failure_eq_none h
    exact ⟨s, hscan, by simp only [h, hresult], hwrites⟩

end Pass

section Effects

variable {encode : Encoder} {o : Options} {cwd path : String} {exportMap : ExportMap}
  {t t' t'' : FileTree} {records opened : List FileRecord} {p q : List String}

theorem FileTree.landing_eq_some {e : Entry} (h : t.place cwd true path = .ok (.found p e)) :
    t.landing cwd path = some p := by
  simp [landing, entryAt?, h]

theorem WritesAll.exists_writtenBytes (h : WritesAll encode o cwd exportMap t records t')
    {r : FileRecord} (hr : r ∈ records) :
    ∃ bytes, writtenBytes encode o cwd exportMap r = .ok bytes := by
  induction h with
  | nil t => simp at hr
  | @cons _ _ _ _ _ bytes _ hbytes _ _ ih =>
      rcases List.mem_cons.mp hr with rfl | hr
      · exact ⟨bytes, hbytes⟩
      · exact ih hr

theorem WritesAll.hasNull_eq (h : WritesAll encode o cwd exportMap t records t') {r : FileRecord}
    (hr : r ∈ records) : Path.hasNull r.outputPath = false := by
  induction h with
  | nil t => simp at hr
  | cons _ hwrites _ ih =>
      rcases List.mem_cons.mp hr with rfl | hr
      · exact hwrites.1
      · exact ih hr

theorem WritesAll.grows (h : WritesAll encode o cwd exportMap t records t') :
    FileTree.Grows t t' := by
  induction h with
  | nil t => exact .refl t
  | cons _ hwrites _ ih => exact hwrites.grows.trans ih

theorem WritesAll.linkFree (h : WritesAll encode o cwd exportMap t records t') (ht : t.LinkFree) :
    t'.LinkFree := by
  induction h with
  | nil t => exact ht
  | cons _ hwrites _ ih => exact ih (hwrites.linkFree ht)

theorem FileTree.Writes.landing_eq {bytes : List UInt8} (h : t.Writes cwd path bytes t' p)
    (hgrows : FileTree.Grows t' t'') :
    t''.landing cwd path = some p ∧ ∃ new, t''.get? p = some (.file new) := by
  have hwritten : t'.get? p = some (.file bytes) := h.get?_eq
  obtain ⟨new, hnew⟩ : ∃ new, t''.get? p = some (.file new) := by
    rcases hgrows p _ hwritten with hp | ⟨-, new, -, hp⟩
    · exact ⟨bytes, hp⟩
    · exact ⟨new, hp⟩
  exact ⟨landing_eq_some (h.place_eq hgrows hnew), new, hnew⟩

/-- The output path of a file that was written leads to a file, however the tree grows
afterwards. -/
theorem WritesAll.exists_place (h : WritesAll encode o cwd exportMap t records t')
    (hgrows : FileTree.Grows t' t'') {r : FileRecord} (hr : r ∈ records) :
    ∃ p new, t''.place cwd true r.outputPath = .ok (.found p (.file new)) := by
  induction h with
  | nil t => simp at hr
  | cons _ hwrites hrest ih =>
      rcases List.mem_cons.mp hr with rfl | hr
      · have hall := hrest.grows.trans hgrows
        obtain ⟨-, new, hnew⟩ := hwrites.landing_eq hall
        exact ⟨_, new, hwrites.place_eq hall hnew⟩
      · exact ih hgrows hr

theorem WritesAll.exists_landing (h : WritesAll encode o cwd exportMap t records t')
    (hgrows : FileTree.Grows t' t'') {r : FileRecord} (hr : r ∈ records) :
    ∃ p new, t''.landing cwd r.outputPath = some p ∧ t''.get? p = some (.file new) := by
  obtain ⟨p, new, hplace⟩ := h.exists_place hgrows hr
  have hstands := (FileTree.place_eq_ok_iff.mp hplace).2.stands
  exact ⟨p, new, FileTree.landing_eq_some hplace, hstands.resolve_left (by simp)⟩

/-- An entry is the one that was there before, unless an output path leads to it or it is a new
directory. -/
theorem WritesAll.get?_cases (h : WritesAll encode o cwd exportMap t records t')
    (hgrows : FileTree.Grows t' t'') (q : List String) :
    (∃ r ∈ records, t''.landing cwd r.outputPath = some q) ∨ t'.get? q = t.get? q ∨
      (t.get? q = none ∧ t'.get? q = some .directory ∧
        (t.LinkFree → ∃ r ∈ records, q ∈ Path.route cwd r.outputPath)) := by
  induction h with
  | nil t => exact .inr (.inl rfl)
  | @cons t t' _ r rest bytes p _ hwrites hrest ih =>
      rcases hwrites.get?_cases q with ⟨rfl, -⟩ | hfirst
      · exact .inl ⟨r, by simp, (hwrites.landing_eq (hrest.grows.trans hgrows)).1⟩
      · rcases ih hgrows with ⟨r', hr', hlanding⟩ | hsame | ⟨hfree, hmade, hroute⟩
        · exact .inl ⟨r', by simp [hr'], hlanding⟩
        · rw [hsame]
          refine .inr (hfirst.imp_right ?_)
          rintro ⟨hfree, hmade, hroute⟩
          exact ⟨hfree, hmade, fun ht => ⟨r, by simp, hroute ht⟩⟩
        · rcases hfirst with hsame | ⟨-, hdirectory, -⟩
          · refine .inr (.inr ⟨hsame.symm.trans hfree, hmade, fun ht => ?_⟩)
            obtain ⟨r', hr', hq⟩ := hroute (hwrites.linkFree ht)
            exact ⟨r', by simp [hr'], hq⟩
          · simp [hdirectory] at hfree

/-- Files at different places hold their own content as long as none of them is written again. -/
theorem WritesAll.exists_content (h : WritesAll encode o cwd exportMap t records t')
    (hgrows : FileTree.Grows t' t'')
    (hkept : ∀ r ∈ records, ∀ p, t''.landing cwd r.outputPath = some p → t''.get? p = t'.get? p)
    (hdistinct : (records.map fun r => t''.landing cwd r.outputPath).Nodup) {r : FileRecord}
    (hr : r ∈ records) :
    ∃ bytes p, writtenBytes encode o cwd exportMap r = .ok bytes ∧
      t''.landing cwd r.outputPath = some p ∧ t''.get? p = some (.file bytes) := by
  induction h with
  | nil t => simp at hr
  | @cons t t₁ t' first rest bytes p hbytes hwrites hrest ih =>
      rw [List.map_cons, List.nodup_cons] at hdistinct
      rcases List.mem_cons.mp hr with rfl | hr
      · have hlanding := (hwrites.landing_eq (hrest.grows.trans hgrows)).1
        -- no later file lands there, so the bytes are still the ones that were written
        have hlast := (hrest.get?_cases hgrows p).resolve_left fun ⟨r', hr', hsame⟩ =>
          hdistinct.1 (List.mem_map.mpr ⟨r', hr', hsame.trans hlanding.symm⟩)
        have hwritten := hwrites.get?_eq
        rcases hlast with hlast | ⟨hfree, -⟩
        · have hsame := hkept r List.mem_cons_self p hlanding
          exact ⟨bytes, p, hbytes, hlanding, hsame.trans (hlast.trans hwritten)⟩
        · simp [hwritten] at hfree
      · exact ih hgrows (fun s hs => hkept s (List.mem_cons_of_mem _ hs)) hdistinct.2 hr

end Effects

section GivenUp

variable {cwd path : String} {t t' : FileTree} {opened : List String}

theorem FileTree.GivesUp.grows (h : t.GivesUp cwd path t' opened) : FileTree.Grows t t' := by
  cases h with
  | closed hmade => exact hmade.grows
  | opened hwrites => exact hwrites.grows

theorem FileTree.GivesUp.linkFree (h : t.GivesUp cwd path t' opened) (ht : t.LinkFree) :
    t'.LinkFree := by
  cases h with
  | closed hmade => exact hmade.linkFree ht
  | opened hwrites => exact hwrites.linkFree ht

/-- A file that was opened is the one at the path; it is empty. -/
theorem FileTree.GivesUp.empty (h : t.GivesUp cwd path t' opened) :
    opened = [] ∨ opened = [path] ∧ ∃ p,
      t'.landing cwd path = some p ∧ t'.get? p = some (.file []) := by
  cases h with
  | closed hmade => exact .inl rfl
  | opened hwrites =>
      exact .inr ⟨rfl, _, (hwrites.landing_eq (.refl t')).1, hwrites.get?_eq⟩

/-- An entry is the one that was there before, unless it was opened or is a new directory. -/
theorem FileTree.GivesUp.get?_cases (h : t.GivesUp cwd path t' opened) (q : List String) :
    (∃ path ∈ opened, t'.landing cwd path = some q) ∨ t'.get? q = t.get? q ∨
      (t.get? q = none ∧ t'.get? q = some .directory) := by
  cases h with
  | closed hmade =>
      refine .inr ((hmade.get?_cases q).imp_right ?_)
      rintro ⟨hfree, hdirectory, -⟩
      exact ⟨hfree, hdirectory⟩
  | opened hwrites =>
      rcases hwrites.get?_cases q with ⟨rfl, -⟩ | hsame | ⟨hfree, hdirectory, -⟩
      · exact .inl ⟨path, List.mem_singleton_self path, (hwrites.landing_eq (.refl t')).1⟩
      · exact .inr (.inl hsame)
      · exact .inr (.inr ⟨hfree, hdirectory⟩)

end GivenUp

section Outputs

variable {encode : Encoder} {o : Options} {cwd path : String} {exportMap : ExportMap}
  {t t' t'' : FileTree} {records : List FileRecord} {opened : List String} {p : List String}

/-- The outputs of some records, and the files that were opened after them, are all that files
differ in. Output paths may lead through links; without links they lead to their normalised
forms. -/
structure LeavesOutputs (encode : Encoder) (o : Options) (cwd : String) (exportMap : ExportMap)
    (t : FileTree) (records : List FileRecord) (opened : List String) (t' : FileTree) : Prop where
  /-- Files at different places hold their content. -/
  content : ((records.map (·.outputPath) ++ opened).map (t'.landing cwd)).Nodup →
    ∀ r ∈ records, ∃ bytes p, writtenBytes encode o cwd exportMap r = .ok bytes ∧
      t'.landing cwd r.outputPath = some p ∧ t'.get? p = some (.file bytes)
  /-- No other file is new or differs, and none is gone. -/
  frame : ∀ q, (∀ path ∈ records.map (·.outputPath) ++ opened, t'.landing cwd path ≠ some q) →
    ∀ bytes, t'.get? q = some (.file bytes) ↔ t.get? q = some (.file bytes)
  landing : Path.Current cwd → t.LinkFree → ∀ path ∈ records.map (·.outputPath) ++ opened,
    t'.landing cwd path = some (Path.absoluteComponents cwd path)

theorem FileTree.exists_place (h : t.landing cwd path = some p) :
    ∃ e, t.place cwd true path = .ok (.found p e) := by
  obtain ⟨⟨found, e⟩, hentry, rfl⟩ := Option.map_eq_some_iff.mp h
  rw [entryAt?] at hentry
  split at hentry
  · rename_i hplace
    obtain ⟨rfl, rfl⟩ := Prod.mk.inj (Option.some.inj hentry)
    exact ⟨_, hplace⟩
  · simp at hentry

/-- Without links, a path leads to its normalised form. -/
theorem FileTree.landing_eq_absolute (hcwd : Path.Current cwd) (ht : t.LinkFree)
    (h : t.landing cwd path = some p) : p = Path.absoluteComponents cwd path := by
  obtain ⟨e, hplace⟩ := exists_place h
  exact path_place_eq hcwd ht hplace

/-- Giving up a file that lands elsewhere leaves the files that were written as they are. -/
theorem WritesAll.get?_of_givesUp (h : WritesAll encode o cwd exportMap t records t')
    (hleft : t'.GivesUp cwd path t'' opened)
    (hdistinct : ((records.map (·.outputPath) ++ opened).map (t''.landing cwd)).Nodup)
    {r : FileRecord} (hr : r ∈ records) (hlanding : t''.landing cwd r.outputPath = some p) :
    t''.get? p = t'.get? p := by
  rcases hleft.get?_cases p with ⟨other, hother, hsame⟩ | hsame | ⟨-, hdirectory⟩
  · rw [List.map_append] at hdistinct
    have hmem : some p ∈ (records.map (·.outputPath)).map (t''.landing cwd) :=
      hlanding ▸ List.mem_map_of_mem (List.mem_map_of_mem hr)
    exact absurd (hsame ▸ List.mem_map_of_mem hother) (hdistinct.disjoint hmem)
  · exact hsame
  · obtain ⟨p', new, hlanding', hfile⟩ := h.exists_landing hleft.grows hr
    obtain rfl := Option.some.inj (hlanding'.symm.trans hlanding)
    simp [hfile] at hdirectory

/-- Writing the files of some records, and then giving up one, leaves their outputs. -/
theorem WritesAll.leavesOutputs_of_givesUp (h : WritesAll encode o cwd exportMap t records t')
    (hleft : t'.GivesUp cwd path t'' opened) :
    LeavesOutputs encode o cwd exportMap t records opened t'' where
  content := by
    intro hdistinct r hr
    have hown : (records.map fun r => t''.landing cwd r.outputPath).Nodup := by
      rw [List.map_append, List.map_map] at hdistinct
      exact hdistinct.of_append_left
    refine h.exists_content hleft.grows (fun s hs p hlanding => ?_) hown hr
    exact h.get?_of_givesUp hleft hdistinct hs hlanding
  frame := by
    intro q hq bytes
    have hopened := (hleft.get?_cases q).resolve_left fun ⟨path, hpath, hlanding⟩ =>
      hq path (List.mem_append_right _ hpath) hlanding
    rcases h.get?_cases hleft.grows q with ⟨r, hr, hlanding⟩ | hsame | ⟨hfree, hdirectory, -⟩
    · exact absurd hlanding (hq _ (List.mem_append_left _ (List.mem_map_of_mem hr)))
    · rw [← hsame]
      rcases hopened with hkept | ⟨hfree, hdirectory⟩
      · rw [hkept]
      · simp [hfree, hdirectory]
    · rcases hopened with hkept | ⟨hfree', -⟩
      · simp [hfree, hkept, hdirectory]
      · simp [hdirectory] at hfree'
  landing := by
    intro hcwd ht path' hpath
    obtain ⟨p, hlanding⟩ : ∃ p, t''.landing cwd path' = some p := by
      rcases List.mem_append.mp hpath with hpath | hpath
      · obtain ⟨r, hr, rfl⟩ := List.mem_map.mp hpath
        obtain ⟨p, -, hlanding, -⟩ := h.exists_landing hleft.grows hr
        exact ⟨p, hlanding⟩
      · rcases hleft.empty with rfl | ⟨rfl, p, hlanding, -⟩
        · simp at hpath
        · obtain rfl := List.mem_singleton.mp hpath
          exact ⟨p, hlanding⟩
    rw [hlanding, FileTree.landing_eq_absolute hcwd (hleft.linkFree (h.linkFree ht)) hlanding]

/-- Writing the files of some records leaves their outputs. -/
theorem WritesAll.leavesOutputs (h : WritesAll encode o cwd exportMap t records t') :
    LeavesOutputs encode o cwd exportMap t records [] t' := by
  have hclosed : t'.GivesUp cwd o.output t' [] := .closed (.refl t')
  exact h.leavesOutputs_of_givesUp hclosed

/-- Without links, different normalised output paths hold the contents. -/
theorem LeavesOutputs.get?_absolute (h : LeavesOutputs encode o cwd exportMap t records opened t')
    (hcwd : Path.Current cwd) (ht : t.LinkFree)
    (hdistinct :
      ((records.map (·.outputPath) ++ opened).map (Path.absoluteComponents cwd)).Nodup)
    {r : FileRecord} (hr : r ∈ records) : ∃ bytes,
      writtenBytes encode o cwd exportMap r = .ok bytes ∧
        t'.get? (Path.absoluteComponents cwd r.outputPath) = some (.file bytes) := by
  have hlandings : (records.map (·.outputPath) ++ opened).map (t'.landing cwd) =
      ((records.map (·.outputPath) ++ opened).map (Path.absoluteComponents cwd)).map some := by
    rw [List.map_map]
    exact List.map_congr_left (h.landing hcwd ht)
  obtain ⟨bytes, p, hcontent, hp, hfile⟩ :=
    h.content (hlandings ▸ hdistinct.map fun _ _ => Option.some.inj) r hr
  rw [h.landing hcwd ht _ (List.mem_append_left _ (List.mem_map_of_mem hr)), Option.some.injEq]
    at hp
  exact ⟨bytes, hcontent, hp ▸ hfile⟩

/-- Without links, files at paths that are no normalised output paths are as they were. -/
theorem LeavesOutputs.frame_absolute (h : LeavesOutputs encode o cwd exportMap t records opened t')
    (hcwd : Path.Current cwd) (ht : t.LinkFree) {q : List String}
    (hq : ∀ path ∈ records.map (·.outputPath) ++ opened, Path.absoluteComponents cwd path ≠ q)
    (bytes : List UInt8) : t'.get? q = some (.file bytes) ↔ t.get? q = some (.file bytes) := by
  apply h.frame
  intro path hpath hlanding
  rw [h.landing hcwd ht path hpath, Option.some.injEq] at hlanding
  exact hq path hpath hlanding

/-- Without links, a place to which no leading part of an output path leads is as it was. -/
theorem WritesAll.get?_eq (h : WritesAll encode o cwd exportMap t records t')
    (hcwd : Path.Current cwd) (ht : t.LinkFree) {q : List String}
    (hq : ∀ r ∈ records, Path.absoluteComponents cwd r.outputPath ≠ q)
    (hroute : ∀ r ∈ records, q ∉ Path.route cwd r.outputPath) : t'.get? q = t.get? q := by
  rcases h.get?_cases (.refl t') q with ⟨r, hr, hlanding⟩ | hsame | ⟨-, -, hnew⟩
  · exact absurd (FileTree.landing_eq_absolute hcwd (h.linkFree ht) hlanding).symm (hq r hr)
  · exact hsame
  · obtain ⟨r, hr, hmem⟩ := hnew ht
    exact absurd hmem (hroute r hr)

/-- Without links, all leading parts of an output path lead to directories, save for the file
itself. -/
theorem WritesAll.get?_route (h : WritesAll encode o cwd exportMap t records t')
    (hcwd : Path.Current cwd) (ht : t.LinkFree) {r : FileRecord} (hr : r ∈ records)
    {q : List String} (hq : q ∈ Path.route cwd r.outputPath)
    (hne : Path.absoluteComponents cwd r.outputPath ≠ q) : t'.get? q = some .directory := by
  obtain ⟨p, -, hlanding, -⟩ := h.exists_landing (.refl t') hr
  obtain ⟨e, hplace⟩ := FileTree.exists_place hlanding
  have hlinks : t'.LinkFree := h.linkFree ht
  rw [Path.route, Path.routeFrom_parts] at hq
  refine ((FileTree.place_eq_ok_iff.mp hplace).2.get?_route hlinks q hq).resolve_left
    fun hpath => hne ?_
  exact (FileTree.path_place_eq hcwd hlinks hplace).symm.trans hpath.symm

end Outputs

end ScriptModules
