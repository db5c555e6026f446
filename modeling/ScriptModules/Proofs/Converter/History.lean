import ScriptModules.Proofs.Converter.Storing

/-!
# A converter over time

A converter is asked for conversions again and again, while the file tree around it changes in any
way. Main statement: its result is the one of the last conversion that succeeded; a conversion whose
first pass fails changes nothing; one that fails at a file leaves its file map and its export map,
the files before that one, the file itself empty if its text cannot be encoded, and everything else
as it was; and a listener is told once for each conversion that it listens to.
-/

namespace ScriptModules

/-- What happens to a converter: the file tree around it becomes another one, or a conversion is
asked for, with a listener or without. -/
inductive Event where
  | change (t : FileTree)
  | convert (listening : Bool)

/-- A conversion with a listener is asked for. -/
def Event.listens : Event → Bool
  | change _ => false
  | convert listening => listening

/-- A converter, the file tree around it, and what its listener has been told. -/
structure Session where
  converter : Converter
  tree : FileTree
  told : List (Option Failure) := []

/-- What a conversion of a tree returns; one that fails returns nothing. -/
def Options.outcome? (encode : Encoder) (o : Options) (cwd : String) (t : FileTree) :
    Option Result :=
  match (Scan.run o cwd t).run.value with
  | .error _ => none
  | .ok s =>
    let exportMap := (ExportMap.build (s.files.map (·.2))).value
    let stored := storeAll encode o cwd exportMap t (s.result exportMap) (s.files.map (·.2))
    match stored.failure with
    | none => some stored.result
    | some _ => none

namespace Session

/-- The session after an event. -/
def step (encode : Encoder) (cwd : String) (s : Session) : Event → Session
  | .change t => { s with tree := t }
  | .convert false =>
    let next := s.converter.convertWith encode cwd s.tree
    { s with converter := next.converter, tree := next.tree }
  | .convert true =>
    let (next, told) := s.converter.convertTelling encode cwd s.tree
      (fun failure told => told ++ [failure]) s.told
    ⟨next.converter, next.tree, told⟩

/-- The session after some events. -/
def run (encode : Encoder) (cwd : String) (s : Session) (events : List Event) : Session :=
  events.foldl (step encode cwd) s

/-- The trees that the conversions start from. -/
def starts (encode : Encoder) (cwd : String) : Session → List Event → List FileTree
  | _, [] => []
  | s, .change t :: rest => starts encode cwd (s.step encode cwd (.change t)) rest
  | s, .convert listening :: rest =>
    s.tree :: starts encode cwd (s.step encode cwd (.convert listening)) rest

/-- The session of a new converter. -/
def fresh (o : Options) (t : FileTree) : Session where
  converter := { options := o }
  tree := t

theorem converter_step_convert (encode : Encoder) (cwd : String) (s : Session)
    (listening : Bool) : (s.step encode cwd (.convert listening)).converter =
      (s.converter.convertWith encode cwd s.tree).converter := by
  cases listening with
  | false => rfl
  | true => rfl

end Session

section Conversion

variable {encode : Encoder} {c : Converter} {cwd : String} {t : FileTree}

/-- A conversion returns something exactly if it has no failure. Its result is what it returns, or
else it stays. -/
theorem outcome?_convertWith (encode : Encoder) (c : Converter) (cwd : String) (t : FileTree) :
    ((c.options.outcome? encode cwd t).isSome = true ↔
      (c.convertWith encode cwd t).failure = none) ∧
    (c.convertWith encode cwd t).converter.result =
      (c.options.outcome? encode cwd t).or c.result := by
  rw [Options.outcome?]
  rcases c.convertWith_cases encode cwd t with
    ⟨f, hscan, hfailure, hconverter, -⟩ | ⟨s, hscan, hfailure, -, hconverter⟩
  · simp [hscan, hfailure, hconverter]
  · rw [hscan, hfailure, hconverter]
    simp only
    generalize storeAll encode c.options cwd (ExportMap.build (s.files.map (·.2))).value t
      (s.result (ExportMap.build (s.files.map (·.2))).value) (s.files.map (·.2)) = stored
    cases hstored : stored.failure with
    | none => simp
    | some f => simp

theorem options_convertWith (encode : Encoder) (c : Converter) (cwd : String) (t : FileTree) :
    (c.convertWith encode cwd t).converter.options = c.options := by
  rcases c.convertWith_cases encode cwd t with
    ⟨f, -, -, hconverter, -⟩ | ⟨s, -, -, -, hconverter⟩
  · rw [hconverter]
  · rw [hconverter]

/-- The file of a record was opened and is empty, as its text cannot be encoded. -/
def FileRecord.LeftEmpty (encode : Encoder) (o : Options) (cwd : String) (exportMap : ExportMap)
    (r : FileRecord) (f : Failure) (t : FileTree) : Prop :=
  r.Unencodable encode o cwd exportMap f ∧
    ∃ p, t.landing cwd r.outputPath = some p ∧ t.get? p = some (.file [])

/-- A conversion that fails in its second pass fails at one file. The maps are those of this
conversion, the result stays, and the outputs of the files before that one, and that one if it is
left empty, are all that files differ in. -/
theorem exists_interrupted {s : Scan} {f : Failure}
    (hscan : (Scan.run c.options cwd t).run.value = .ok s)
    (h : (c.convertWith encode cwd t).failure = some f) :
    let after := c.convertWith encode cwd t
    let exportMap := (ExportMap.build (s.files.map (·.2))).value
    after.converter = { c with files := s.files, exportMap := exportMap } ∧
      ∃ done r rest opened, s.files.map (·.2) = done ++ r :: rest ∧
        let before := storeAll encode c.options cwd exportMap t (s.result exportMap) done
        before.failure = none ∧
        (storeRecord encode c.options cwd exportMap before.tree before.result r).failure =
          some f ∧
        LeavesOutputs encode c.options cwd exportMap t done opened after.tree ∧
        (opened = [] ∨ opened = [r.outputPath] ∧
          r.LeftEmpty encode c.options cwd exportMap f after.tree) := by
  rcases c.convertWith_cases encode cwd t with
    ⟨f', hscan', -⟩ | ⟨s', hscan', hfailure, htree, hconverter⟩
  · simp [hscan] at hscan'
  · obtain rfl := Except.ok.inj (hscan.symm.trans hscan')
    rw [hfailure] at h
    simp only [htree, hconverter, h, true_and]
    rcases storeAll_cases encode c.options cwd (ExportMap.build (s.files.map (·.2))).value t
        (s.result (ExportMap.build (s.files.map (·.2))).value) (s.files.map (·.2)) with
      ⟨hnone, -⟩ |
        ⟨done, r, rest, f', opened, hrecords, hfails, hdone, hwrites, hfile, hleft, hrefused⟩
    · simp [hnone] at h
    · obtain rfl := Option.some.inj (h.symm.trans hfails)
      refine ⟨done, r, rest, opened, hrecords, hdone, hfile,
        hwrites.leavesOutputs_of_givesUp hleft, ?_⟩
      refine hleft.empty.imp_right ?_
      rintro ⟨rfl, hempty⟩
      exact ⟨rfl, hrefused.resolve_left (by simp), hempty⟩

end Conversion

namespace Session

variable {encode : Encoder} {cwd : String} {s : Session} {events : List Event}

theorem options_run (encode : Encoder) (cwd : String) (s : Session) (events : List Event) :
    (s.run encode cwd events).converter.options = s.converter.options := by
  induction events generalizing s with
  | nil => rfl
  | cons e events ih =>
      have hstep : (s.step encode cwd e).converter.options = s.converter.options := by
        cases e with
        | change t => rfl
        | convert listening => rw [converter_step_convert, options_convertWith]
      exact (ih (s.step encode cwd e)).trans hstep

/-- The result is the last that a conversion returned, or the one there was before. -/
theorem result_run (encode : Encoder) (cwd : String) (s : Session) (events : List Event) :
    (s.run encode cwd events).converter.result =
      ((s.starts encode cwd events).filterMap
        (s.converter.options.outcome? encode cwd)).getLast?.or s.converter.result := by
  induction events generalizing s with
  | nil => rfl
  | cons e events ih =>
      cases e with
      | change t => exact ih (s.step encode cwd (.change t))
      | convert listening =>
          have hrest := ih (s.step encode cwd (.convert listening))
          rw [converter_step_convert, options_convertWith, (outcome?_convertWith _ _ _ _).2]
            at hrest
          rw [starts, List.filterMap_cons]
          refine hrest.trans ?_
          cases s.converter.options.outcome? encode cwd s.tree with
          | none => simp
          | some result =>
              simp only [List.getLast?_cons, Option.some_or]
              generalize (((s.step encode cwd (.convert listening)).starts encode cwd
                events).filterMap (s.converter.options.outcome? encode cwd)).getLast? = last
              cases last with
              | none => rfl
              | some later => rfl

/-- A listener is told once for each conversion that it listens to. -/
theorem length_told_run (encode : Encoder) (cwd : String) (s : Session) (events : List Event) :
    (s.run encode cwd events).told.length = s.told.length + events.countP Event.listens := by
  induction events generalizing s with
  | nil => rfl
  | cons e events ih =>
      refine (ih (s.step encode cwd e)).trans ?_
      rw [List.countP_cons]
      cases e with
      | change t => rfl
      | convert listening =>
          cases listening with
          | false => rfl
          | true =>
              simp [step, Converter.convertTelling, Event.listens]
              omega

end Session

/-- For a new converter, after any events, and for the conversion that comes next: the result is
that of the last conversion that succeeded; the listener was told once for each conversion with it,
and is told the next failure; if the first pass fails, nothing changes; if the second pass fails, it
does so at one file, the file map and the export map are new, the result stays, and files differ
only in the outputs of the files before that one, which hold their content, and in that one itself,
which is empty, if it is a script whose text cannot be encoded. Without links, that is so for the
normalised output paths. -/
theorem session_history (encode : Encoder) (o : Options) (cwd : String) (t₀ : FileTree)
    (events : List Event) :
    let s := (Session.fresh o t₀).run encode cwd events
    let next := s.converter.convertWith encode cwd s.tree
    s.converter.result = (((Session.fresh o t₀).starts encode cwd events).filterMap
      (o.outcome? encode cwd)).getLast? ∧
    ((o.outcome? encode cwd s.tree).isSome = true ↔ next.failure = none) ∧
    s.told.length = events.countP Event.listens ∧
    (s.step encode cwd (.convert true)).told = s.told ++ [next.failure] ∧
    (∀ f, (Scan.run o cwd s.tree).run.value = .error f →
      next.failure = some f ∧ next.converter = s.converter ∧ next.tree = s.tree) ∧
    ∀ scan f, (Scan.run o cwd s.tree).run.value = .ok scan → next.failure = some f →
      let exportMap := (ExportMap.build (scan.files.map (·.2))).value
      next.converter = { s.converter with files := scan.files, exportMap := exportMap } ∧
      ∃ done r rest opened, scan.files.map (·.2) = done ++ r :: rest ∧
        let before := storeAll encode o cwd exportMap s.tree (scan.result exportMap) done
        before.failure = none ∧
        (storeRecord encode o cwd exportMap before.tree before.result r).failure = some f ∧
        LeavesOutputs encode o cwd exportMap s.tree done opened next.tree ∧
        (opened = [] ∨ opened = [r.outputPath] ∧
          r.LeftEmpty encode o cwd exportMap f next.tree) ∧
        (Path.Current cwd → s.tree.LinkFree →
          (scan.files.map fun f => Path.absoluteComponents cwd f.2.outputPath).Nodup →
          (∀ r ∈ done, ∃ bytes, writtenBytes encode o cwd exportMap r = .ok bytes ∧
            next.tree.get? (Path.absoluteComponents cwd r.outputPath) = some (.file bytes)) ∧
          ∀ q, (∀ path ∈ done.map (·.outputPath) ++ opened,
              Path.absoluteComponents cwd path ≠ q) →
            ∀ bytes, next.tree.get? q = some (.file bytes) ↔
              s.tree.get? q = some (.file bytes)) := by
  have hresult := (Session.fresh o t₀).result_run encode cwd events
  have htold := (Session.fresh o t₀).length_told_run encode cwd events
  have hoptions : ((Session.fresh o t₀).run encode cwd events).converter.options = o :=
    (Session.fresh o t₀).options_run encode cwd events
  generalize (Session.fresh o t₀).run encode cwd events = s at hresult htold hoptions
  subst hoptions
  refine ⟨hresult.trans (Option.or_none ..), (outcome?_convertWith _ _ _ _).1,
    htold.trans (Nat.zero_add _), rfl, ?_, ?_⟩
  · intro f hscan
    rcases s.converter.convertWith_cases encode cwd s.tree with
      ⟨f', hscan', hfailure, hconverter, htree⟩ | ⟨scan, hscan', -⟩
    · obtain rfl := Except.error.inj (hscan.symm.trans hscan')
      exact ⟨hfailure, hconverter, htree⟩
    · simp [hscan] at hscan'
  · intro scan f hscan hfailure
    obtain ⟨hconverter, done, r, rest, opened, hrecords, hdone, hfile, houtputs, hempty⟩ :=
      exists_interrupted hscan hfailure
    refine ⟨hconverter, done, r, rest, opened, hrecords, hdone, hfile, houtputs, hempty, ?_⟩
    intro hcwd hlinks hdistinct
    have hown : ((done.map (·.outputPath) ++ opened).map (Path.absoluteComponents cwd)).Nodup := by
      have hall : (((done ++ r :: rest).map (·.outputPath)).map
          (Path.absoluteComponents cwd)).Nodup := by
        rw [← hrecords]
        simpa [Function.comp_def] using hdistinct
      have hpart : (done.map (·.outputPath) ++ opened).Sublist
          ((done ++ r :: rest).map (·.outputPath)) := by
        rw [List.map_append, List.map_cons]
        refine .append_left ?_ _
        rcases hempty with rfl | ⟨rfl, -⟩
        · exact List.nil_sublist _
        · exact .cons_cons _ (List.nil_sublist _)
      exact hall.sublist (hpart.map _)
    exact ⟨fun r hr => houtputs.get?_absolute hcwd hlinks hown hr,
      fun q => houtputs.frame_absolute hcwd hlinks⟩

/-- Three notes, of which the first two have outputs that are links to one file; the third output is
a directory. -/
def sharedOutputTree : FileTree where
  entries := [(["work"], .directory), (["work", "a.txt"], .file [65]),
    (["work", "b.txt"], .file [66]), (["work", "c.txt"], .file [67]),
    (["work", "shared.txt"], .file [83]), (["work", "out"], .directory),
    (["work", "out", "a.txt"], .link "../shared.txt"),
    (["work", "out", "b.txt"], .link "../shared.txt"), (["work", "out", "c.txt"], .directory)]

/-- A note, and a script with a letter that is not in ASCII, which has an output from before. -/
def accentTree : FileTree where
  entries := [(["work"], .directory), (["work", "a.txt"], .file [65]),
    (["work", "b.js"], .file [195, 169]), (["work", "out"], .directory),
    (["work", "out", "b.js"], .file [66])]

/-- An encoder that knows ASCII only. -/
def asciiEncoder : Encoder := fun text =>
  if text.toList.all (·.toNat < 128) then utf8 text else .error "not in ASCII"

/-- Options for some notes. -/
def noteOptions (inputs : List String) : Options where
  inputs := inputs
  excludes := []
  output := "out"
  edgeCases := []
  banner := ""
  namespaceName := "NS"

/-- Where output paths lead to one file through links, the file of an earlier record does not keep
its content: the normalised output paths differ, the third file fails, and the first one does not
hold what it was converted to. Where a text cannot be encoded, the output that fails does not keep
its old content. -/
theorem shared_output_overwritten :
    (let o := noteOptions ["a.txt", "b.txt", "c.txt"]
    let next := ({ options := o } : Converter).convert "/work" sharedOutputTree
    (next.converter.files.map fun f => Path.absoluteComponents "/work" f.2.outputPath) =
      [["work", "out", "a.txt"], ["work", "out", "b.txt"], ["work", "out", "c.txt"]] ∧
    next.failure = some (.file ⟨.isDirectory, "out/c.txt"⟩) ∧
    (next.converter.files.map fun f =>
      (writtenBytes utf8 o "/work" next.converter.exportMap f.2).toOption) =
      [some [65], some [66], some [67]] ∧
    next.tree.entryAt? "/work" "out/a.txt" = some (["work", "shared.txt"], .file [66])) ∧
    let o := noteOptions ["a.txt", "b.js"]
    let next := ({ options := o } : Converter).convertWith asciiEncoder "/work" accentTree
    next.failure = some (.unencodable "not in ASCII") ∧
    next.tree.get? ["work", "out", "a.txt"] = some (.file [65]) ∧
    accentTree.get? ["work", "out", "b.js"] = some (.file [66]) ∧
    next.tree.get? ["work", "out", "b.js"] = some (.file []) := by
  decide +kernel

/-- Two notes. -/
def notesTree : FileTree where
  entries := [(["work"], .directory), (["work", "a.txt"], .file [65]),
    (["work", "b.txt"], .file [66])]

/-- Two notes, of which the second has a directory in the place of its output. -/
def blockedTree : FileTree where
  entries := [(["work"], .directory), (["work", "a.txt"], .file [97]),
    (["work", "b.txt"], .file [98]), (["work", "out"], .directory),
    (["work", "out", "b.txt"], .directory)]

/-- Both notes are converted, then they are gone, and at last the second is blocked. -/
def noteEvents : List Event := [.convert true, .change {}, .convert false, .change blockedTree]

/-- The record of a note in the working directory. -/
def noteRecord (name : String) (bytes : List UInt8) : FileRecord where
  source := {
    path := "/work/" ++ name ++ ".txt"
    root := "/work/" ++ name ++ ".txt"
    text := ""
    baseName := name
    extension := ".txt"
    raw := bytes }
  outputPath := "out/" ++ name ++ ".txt"

theorem session_history_notes :
    let o := noteOptions ["a.txt", "b.txt"]
    let s := (Session.fresh o notesTree).run utf8 "/work" noteEvents
    let next := s.converter.convertWith utf8 "/work" s.tree
    s.converter.result =
      some ⟨{ converted := 0, copied := 2, excluded := 0, skipped := 0, registered := 0 },
        ["out/a.txt", "out/b.txt"]⟩ ∧
    s.told.length = 1 ∧ next.failure = some (.file ⟨.isDirectory, "out/b.txt"⟩) ∧
    next.converter.files = [("a", noteRecord "a" [97]), ("b", noteRecord "b" [98])] ∧
    next.tree.get? ["work", "out", "a.txt"] = some (.file [97]) ∧
    next.tree.get? ["work", "b.txt"] = some (.file [98]) := by
  intro o s next
  have hscan : (Scan.run o "/work" s.tree).run.value =
      .ok ⟨[("a", noteRecord "a" [97]), ("b", noteRecord "b" [98])], 0, 0⟩ := by decide +kernel
  have hfailure : next.failure = some (.file ⟨.isDirectory, "out/b.txt"⟩) := by decide +kernel
  obtain ⟨hresult, -, htold, -, -, hfails⟩ :=
    session_history utf8 o "/work" notesTree noteEvents
  obtain ⟨hconverter, done, r, rest, opened, hrecords, -, hfile, -, hempty, houtputs⟩ :=
    hfails _ _ hscan hfailure
  obtain rfl : [noteRecord "a" [97]] = done := by
    rcases done with _ | ⟨first, _ | ⟨second, more⟩⟩
    · obtain ⟨rfl, -⟩ := List.cons.inj hrecords
      have hstored : (storeRecord utf8 o "/work" [] blockedTree ⟨{}, []⟩
          (noteRecord "a" [97])).failure = none := by decide +kernel
      exact absurd (hstored.symm.trans hfile) (by simp)
    · exact congrArg (fun r => [r]) (List.cons.inj hrecords).1
    · simp at hrecords
  -- UTF-8 refuses no text, so no file was left empty
  obtain rfl : opened = [] := by
    refine hempty.resolve_right ?_
    rintro ⟨-, ⟨-, text, message, -, hrefused, -⟩, -⟩
    cases hrefused
  have hlinks : blockedTree.LinkFree := FileTree.linkFree_of_entries (by simp [blockedTree])
  obtain ⟨hcontent, hframe⟩ := houtputs (by decide +kernel) hlinks (by decide +kernel)
  refine ⟨hresult.trans (by decide +kernel), htold, hfailure, by rw [hconverter], ?_, ?_⟩
  · obtain ⟨bytes, hbytes, hnew⟩ := hcontent _ (List.mem_singleton_self _)
    obtain rfl : [97] = bytes := Except.ok.inj hbytes
    exact hnew
  · exact (hframe ["work", "b.txt"] (by decide +kernel) [98]).mpr (by decide +kernel)

end ScriptModules
