import ScriptModules.ConvertedText
import ScriptModules.Converter
import ScriptModules.Proofs.Work

/-!
# Conversions that succeed

A conversion without a failure has scanned all inputs, and every file that it found was converted or
copied with the registry of all of them.
-/

namespace ScriptModules

/-- The text is the module that a script becomes: the banner, the import block, the body after all
rules and the export block. -/
def FileRecord.BecomesModule (o : Options) (cwd : String) (exportMap : ExportMap) (r : FileRecord)
    (text : String) : Prop :=
  let edgeCase := o.edgeCaseFor r.source.baseName
  ∃ rules importText body exportText,
    (importBlock cwd r.outputPath exportMap
      (resolveImports o.namespaceName r.exports edgeCase r.source.text).value).run.value =
        .ok importText ∧
    (buildRules o.namespaceName r.exports edgeCase r.source.text).run.value = .ok rules ∧
    applyRules rules r.source.text = .ok body ∧
    (exportBlock r.outputPath r.exports).run.value = .ok exportText ∧
    text = o.banner ++ importText ++ body ++ exportText

/-- The bytes that a file is written as. -/
def writtenBytes (encode : Encoder) (o : Options) (cwd : String) (exportMap : ExportMap)
    (r : FileRecord) : Except Failure (List UInt8) :=
  (contentOf encode o cwd exportMap r).run.value.bind (·.encoded encode)

variable {encode : Encoder} {o : Options} {cwd : String} {exportMap : ExportMap}

theorem writtenBytes_eq_ok {r : FileRecord} {bytes : List UInt8} :
    writtenBytes encode o cwd exportMap r = .ok bytes ↔ ∃ content,
      (contentOf encode o cwd exportMap r).run.value = .ok content ∧
        content.encoded encode = .ok bytes :=
  bind_eq_ok

/-- A conversion whose first pass fails changes nothing. After the first pass the file map and the
export map are the new ones, and the tree and the failure are those that the second pass leaves;
without a failure the result is that of the second pass. -/
theorem Converter.convertWith_cases (encode : Encoder) (c : Converter) (cwd : String)
    (t : FileTree) :
    let after := c.convertWith encode cwd t
    (∃ f, (Scan.run c.options cwd t).run.value = .error f ∧ after.failure = some f ∧
      after.converter = c ∧ after.tree = t) ∨
    ∃ s, (Scan.run c.options cwd t).run.value = .ok s ∧
      let records := s.files.map (·.2)
      let exportMap := (ExportMap.build records).value
      let stored := storeAll encode c.options cwd exportMap t (s.result exportMap) records
      after.failure = stored.failure ∧ after.tree = stored.tree ∧
        after.converter = { c with
          files := s.files
          exportMap := exportMap
          result := match stored.failure with
            | none => some stored.result
            | some _ => c.result } := by
  rw [convertWith]
  cases hscan : (Scan.run c.options cwd t).run.value with
  | error f => exact .inl ⟨f, rfl, rfl, rfl, rfl⟩
  | ok s =>
      refine .inr ⟨s, rfl, ?_⟩
      simp only
      generalize storeAll encode c.options cwd (ExportMap.build (s.files.map (·.2))).value t
        (s.result (ExportMap.build (s.files.map (·.2))).value) (s.files.map (·.2)) = stored
      cases hstored : stored.failure with
      | none => exact ⟨rfl, rfl, rfl⟩
      | some f => exact ⟨rfl, rfl, rfl⟩

theorem exists_convertScript {r : FileRecord} (hscript : r.source.isScript = true)
    {bytes : List UInt8} (h : writtenBytes encode o cwd exportMap r = .ok bytes) :
    ∃ text, (convertScript o cwd exportMap r).run.value = .ok text ∧ encode text = .ok bytes := by
  obtain ⟨content, hcontent, hbytes⟩ := writtenBytes_eq_ok.mp h
  rw [contentOf, if_pos hscript] at hcontent
  obtain ⟨text, htext, hcontent⟩ := Work.value_bind_eq_ok.mp hcontent
  obtain rfl := Except.ok.inj hcontent
  exact ⟨text, htext, mapError_eq_ok.mp hbytes⟩

theorem exists_banner {r : FileRecord} (hscript : r.source.isScript = false) {bytes : List UInt8}
    (h : writtenBytes encode o cwd exportMap r = .ok bytes) :
    ∃ banner, encode o.banner = .ok banner ∧ bytes = banner ++ r.source.raw := by
  obtain ⟨content, hcontent, hbytes⟩ := writtenBytes_eq_ok.mp h
  rw [contentOf, if_neg (by simp [hscript])] at hcontent
  obtain ⟨banner, hbanner, hcontent⟩ := Work.value_bind_eq_ok.mp hcontent
  obtain rfl := Except.ok.inj hcontent
  exact ⟨banner, mapError_eq_ok.mp hbanner, (Except.ok.inj hbytes).symm⟩

/-- A script is converted exactly to the module that it becomes. -/
theorem convertScript_eq_ok_iff {r : FileRecord} {text : String} :
    (convertScript o cwd exportMap r).run.value = .ok text ↔
      r.BecomesModule o cwd exportMap text := by
  rw [convertScript]
  constructor
  · intro h
    obtain ⟨imports, himports, h⟩ := Work.value_bind_eq_ok.mp h
    obtain rfl := Except.ok.inj himports
    obtain ⟨rules, hrules, h⟩ := Work.value_bind_eq_ok.mp h
    obtain ⟨importText, himportText, h⟩ := Work.value_bind_eq_ok.mp h
    obtain ⟨body, hbody, h⟩ := Work.value_bind_eq_ok.mp h
    obtain ⟨exportText, hexportText, h⟩ := Work.value_bind_eq_ok.mp h
    exact ⟨rules, importText, body, exportText, himportText, hrules, hbody, hexportText,
      (Except.ok.inj h).symm⟩
  · rintro ⟨rules, importText, body, exportText, himportText, hrules, hbody, hexportText, rfl⟩
    refine Work.value_bind_eq_ok.mpr ⟨_, rfl, ?_⟩
    refine Work.value_bind_eq_ok.mpr ⟨rules, hrules, ?_⟩
    refine Work.value_bind_eq_ok.mpr ⟨importText, himportText, ?_⟩
    refine Work.value_bind_eq_ok.mpr ⟨body, hbody, ?_⟩
    exact Work.value_bind_eq_ok.mpr ⟨exportText, hexportText, rfl⟩

/-- A converted script is the banner, its import statements, its body and its export statements. -/
theorem convertScript_eq_ok {r : FileRecord} {text : String}
    (h : (convertScript o cwd exportMap r).run.value = .ok text) :
    ∃ groups body exportText,
      (groupImports cwd r.outputPath exportMap (resolveImports o.namespaceName r.exports
        (o.edgeCaseFor r.source.baseName) r.source.text).value []).run.value = .ok groups ∧
      text = assemble o.banner (importStatements groups) body exportText := by
  obtain ⟨-, importText, body, exportText, himportText, -, -, -, htext⟩ :=
    convertScript_eq_ok_iff.mp h
  obtain ⟨groups, hgroups, himportText⟩ := Work.value_bind_eq_ok.mp himportText
  obtain rfl := Except.ok.inj himportText
  exact ⟨groups, body, exportText, hgroups, htext⟩

namespace ScriptText

/-- The options of a conversion with the settings of the script. -/
def options (s : ScriptText) : Options where
  inputs := []
  excludes := []
  output := ""
  edgeCases := (s.edgeCase.map fun e => (s.baseName, e)).toList
  banner := s.banner
  namespaceName := s.namespaceName

/-- What the first pass of a conversion learns of the script. -/
def record (s : ScriptText) : FileRecord :=
  let text := Script.stripComments s.text
  let classification := classify s.namespaceName text
  { source := {
      path := s.path
      root := s.path
      text
      baseName := s.baseName
      extension := scriptExtension
      raw := [] }
    outputPath := s.path
    classification
    exports := (resolveExports s.namespaceName s.baseName s.edgeCase classification text).value }

@[simp] theorem edgeCaseFor_options (s : ScriptText) :
    s.options.edgeCaseFor s.record.source.baseName = s.edgeCase := by
  rw [options, Options.edgeCaseFor, record]
  cases s.edgeCase <;> simp

/-- A script on its own becomes the module that a conversion makes of it, or neither does. As the
conversion writes the import block before it applies the rules, only the notices and which of two
failures comes first may differ. -/
theorem convert_eq_ok_iff {s : ScriptText} {c : ConvertedText} :
    (s.convert cwd exportMap).run.value = .ok c ↔
      c.classification = s.record.classification ∧ c.exports = s.record.exports ∧
      c.imports = (resolveImports s.namespaceName s.record.exports s.edgeCase
        s.record.source.text).value ∧
      (convertScript s.options cwd exportMap s.record).run.value = .ok c.output := by
  rw [convertScript_eq_ok_iff, FileRecord.BecomesModule, edgeCaseFor_options, convert]
  constructor
  · intro h
    obtain ⟨exports, hexports, h⟩ := Work.value_bind_eq_ok.mp h
    obtain rfl := Except.ok.inj hexports
    obtain ⟨imports, himports, h⟩ := Work.value_bind_eq_ok.mp h
    obtain rfl := Except.ok.inj himports
    obtain ⟨rules, hrules, h⟩ := Work.value_bind_eq_ok.mp h
    obtain ⟨body, hbody, h⟩ := Work.value_bind_eq_ok.mp h
    obtain ⟨importText, himportText, h⟩ := Work.value_bind_eq_ok.mp h
    obtain ⟨exportText, hexportText, h⟩ := Work.value_bind_eq_ok.mp h
    obtain rfl := Except.ok.inj h
    exact ⟨rfl, rfl, rfl, rules, importText, body, exportText, himportText, hrules, hbody,
      hexportText, rfl⟩
  · obtain ⟨classification, exports, imports, output⟩ := c
    rintro ⟨rfl, rfl, rfl, rules, importText, body, exportText, himportText, hrules, hbody,
      hexportText, rfl⟩
    refine Work.value_bind_eq_ok.mpr ⟨_, rfl, ?_⟩
    refine Work.value_bind_eq_ok.mpr ⟨_, rfl, ?_⟩
    refine Work.value_bind_eq_ok.mpr ⟨rules, hrules, ?_⟩
    refine Work.value_bind_eq_ok.mpr ⟨body, hbody, ?_⟩
    refine Work.value_bind_eq_ok.mpr ⟨importText, himportText, ?_⟩
    refine Work.value_bind_eq_ok.mpr ⟨exportText, hexportText, ?_⟩
    simp only [record, options, assemble]
    rfl

end ScriptText

end ScriptModules
