import ScriptModules.ExportMap
import ScriptModules.Proofs.FirstOccurrence
import ScriptModules.Proofs.Work
import Mathlib.Data.List.Infix

/-!
# The owners of exported names

The first file that claims a name keeps it: the export map of all files gives, for each name, the
output path of the first script that exports it, and no path for a name that no script exports.

The files claim names one after the other. One more claim registers its name last, or leaves the map
as it is and is reported if another path owns the name. What all claims together register and report
follows claim by claim.
-/

namespace ScriptModules

/-- The file is a script that exports the name. -/
def FileRecord.offers (r : FileRecord) (name : String) : Bool :=
  r.source.isScript && r.exports.any (·.publicName == name)

namespace ExportMap

theorem value_claim (m : ExportMap) (path outputPath name : String) :
    (m.claim path outputPath name).value = if (m.owner? name).isSome then m
      else m ++ [(name, outputPath)] := by
  rw [claim]
  cases m.owner? name with
  | none => rfl
  | some owner =>
      simp only
      split <;> rfl

/-- A claim gives a name its owner if it has none. -/
theorem owner?_claim (m : ExportMap) (path outputPath claimed name : String) :
    (m.claim path outputPath claimed).value.owner? name =
      (m.owner? name).or (if claimed == name then some outputPath else none) := by
  rw [value_claim]
  by_cases h : claimed = name
  · subst h
    cases howner : m.owner? claimed with
    | none =>
        have hnew : (m ++ [(claimed, outputPath)] : ExportMap).owner? claimed =
            some outputPath := by
          rw [owner?] at howner ⊢
          simp [List.lookup_append, howner]
        simpa using hnew
    | some owner => simpa using howner
  · have hlookup : (m ++ [(claimed, outputPath)]).owner? name = m.owner? name := by
      have hname : (name == claimed) = false := beq_eq_false_iff_ne.mpr (Ne.symm h)
      rw [owner?, List.lookup_append, List.lookup_cons, hname]
      simp [owner?]
    rw [beq_eq_false_iff_ne.mpr h]
    split <;> simp [hlookup]

/-- Registering a file gives its names an owner where they have none. -/
theorem owner?_register (m : ExportMap) (r : FileRecord) (name : String) :
    (m.register r).value.owner? name =
      (m.owner? name).or (if r.offers name then some r.outputPath else none) := by
  rw [register, FileRecord.offers]
  cases r.source.isScript with
  | false => simp
  | true =>
      rw [if_pos rfl, Noted.value_foldlM, Bool.true_and]
      induction r.exports generalizing m with
      | nil => simp
      | cons e exports ih =>
          rw [List.foldl_cons, ih, owner?_claim, Option.or_assoc]
          by_cases h : e.publicName == name <;> simp [h]

theorem value_build (records : List FileRecord) :
    (build records).value = records.foldl (fun m r => (register m r).value) [] :=
  Noted.value_foldlM register [] records

/-- A name belongs to the first script that exports it. -/
theorem owner?_build (records : List FileRecord) (name : String) :
    (build records).value.owner? name = (records.find? (·.offers name)).map (·.outputPath) := by
  have hfold : ∀ m : ExportMap, (records.foldl (fun m r => (m.register r).value) m).owner? name =
      (m.owner? name).or ((records.find? (·.offers name)).map (·.outputPath)) := by
    induction records with
    | nil => simp
    | cons r records ih =>
        intro m
        rw [List.foldl_cons, ih, owner?_register, Option.or_assoc, List.find?_cons]
        cases r.offers name <;> simp
  rw [value_build, hfold]
  rfl

/-- Maps with the same owners register the same number of names. -/
theorem length_eq_of_owner? {m m' : ExportMap} (hm : (m.map (·.1)).Nodup)
    (hm' : (m'.map (·.1)).Nodup) (h : ∀ name, m.owner? name = m'.owner? name) :
    m.length = m'.length := by
  have hmem (m : ExportMap) (name : String) : name ∈ m.map (·.1) ↔
      (m.owner? name).isSome = true := by
    rw [owner?, List.lookup_isSome_iff, List.mem_map]
    exact ⟨fun ⟨p, hp, hname⟩ => ⟨p, hp, by simp [hname]⟩,
      fun ⟨p, hp, hname⟩ => ⟨p, hp, (eq_of_beq hname).symm⟩⟩
  have hperm : (m.map (·.1)).Perm (m'.map (·.1)) :=
    (List.perm_ext_iff_of_nodup hm hm').mpr fun name => by rw [hmem, hmem, h]
  simpa using hperm.length_eq

section Claims

/-- The names that files claim, each with its file, in the order in which they are registered. -/
def claimsOf (records : List FileRecord) : List (FileRecord × String) :=
  (records.filter (·.source.isScript)).flatMap fun r => r.exports.map fun e => (r, e.publicName)

/-- Registers the name of a claim. -/
def stake (m : ExportMap) (c : FileRecord × String) : Noted ExportMap :=
  m.claim c.1.source.path c.1.outputPath c.2

/-- What is registered for claims in order, and what is reported of them. -/
def registry (claims : List (FileRecord × String)) : Noted ExportMap := claims.foldlM stake []

/-- The report on a claim to a name that earlier claims have given to another path. -/
def conflict? (earlier : List (FileRecord × String)) (c : FileRecord × String) : Option Notice :=
  (earlier.find? (·.2 == c.2)).bind fun first =>
    if first.1.outputPath = c.1.outputPath then none
    else some (.alreadyExported c.2 (Path.fileName c.1.source.path)
      (Path.fileName first.1.outputPath))

variable {claims : List (FileRecord × String)} {c : FileRecord × String}

theorem claimsOf_append (records others : List FileRecord) :
    claimsOf (records ++ others) = claimsOf records ++ claimsOf others := by
  rw [claimsOf, List.filter_append, List.flatMap_append]
  rfl

theorem register_eq_foldlM (m : ExportMap) (r : FileRecord) :
    m.register r = (claimsOf [r]).foldlM stake m := by
  rw [register, claimsOf]
  cases hscript : r.source.isScript with
  | false => simp [hscript]
  | true => simp [hscript, List.foldlM_map, stake]

theorem foldlM_register (m : ExportMap) (records : List FileRecord) :
    records.foldlM register m = (claimsOf records).foldlM stake m := by
  induction records generalizing m with
  | nil => rfl
  | cons r records ih =>
      rw [List.foldlM_cons, register_eq_foldlM, funext ih, ← List.foldlM_append, ← claimsOf_append]
      rfl

/-- The export map of files is the registry of their claims. -/
theorem build_eq_registry (records : List FileRecord) :
    build records = do
      let m ← registry (claimsOf records)
      Noted.tell (.exportMapBuilt m.length)
      return m := by
  rw [build, foldlM_register]
  rfl

theorem registry_append_singleton (claims : List (FileRecord × String)) (c : FileRecord × String) :
    registry (claims ++ [c]) = registry claims >>= (stake · c) := by
  rw [registry, List.foldlM_append]
  simp [registry]

/-- Of the claims to a name, the first one gives it its path. -/
theorem owner?_registry (claims : List (FileRecord × String)) (name : String) :
    (registry claims).value.owner? name = (claims.find? (·.2 == name)).map (·.1.outputPath) := by
  induction claims using List.reverseRecOn with
  | nil => rfl
  | append_singleton claims c ih =>
      rw [registry_append_singleton, Noted.value_bind, stake, owner?_claim, ih, List.find?_append]
      cases claims.find? (·.2 == name) with
      | some first => simp
      | none => by_cases h : c.2 == name <;> simp [h]

/-- A name is registered exactly if somebody claims it. -/
theorem isSome_owner?_registry {name : String} :
    ((registry claims).value.owner? name).isSome = true ↔ name ∈ claims.map (·.2) := by
  rw [owner?_registry, Option.isSome_map, List.find?_isSome, List.mem_map]
  simp

/-- The names are registered in the order in which they are first claimed. -/
theorem keys_registry (claims : List (FileRecord × String)) :
    (registry claims).value.map (·.1) = unique (claims.map (·.2)) := by
  induction claims using List.reverseRecOn with
  | nil => rfl
  | append_singleton claims c ih =>
      rw [registry_append_singleton, Noted.value_bind, stake, value_claim, List.map_append,
        List.map_singleton]
      by_cases hmem : c.2 ∈ claims.map (·.2)
      · rw [if_pos (isSome_owner?_registry.mpr hmem), ih, unique_append_cons_of_mem hmem,
          List.append_nil]
      · rw [if_neg (mt isSome_owner?_registry.mp hmem), List.map_append, ih,
          unique_append_singleton hmem]
        rfl

/-- Every name is registered once. -/
theorem nodup_build (records : List FileRecord) : ((build records).value.map (·.1)).Nodup := by
  rw [build_eq_registry]
  change ((registry (claimsOf records)).value.map (·.1)).Nodup
  rw [keys_registry]
  exact nodup_unique _

/-- Further claims leave what is registered as it is. -/
theorem prefix_registry (claims later : List (FileRecord × String)) :
    (registry claims).value <+: (registry (claims ++ later)).value := by
  induction later using List.reverseRecOn with
  | nil => simp
  | append_singleton later c ih =>
      rw [← List.append_assoc, registry_append_singleton, Noted.value_bind, stake, value_claim]
      split
      · exact ih
      · exact ih.trans (List.prefix_append _ _)

theorem notices_stake (claims : List (FileRecord × String)) (c : FileRecord × String) :
    (stake (registry claims).value c).notices = (conflict? claims c).toList := by
  rw [stake, claim, owner?_registry, conflict?]
  cases claims.find? (·.2 == c.2) with
  | none => rfl
  | some first =>
      by_cases h : first.1.outputPath = c.1.outputPath
      · simp [h, pure]
      · simp [h, bind, pure, Noted.tell]

/-- One more claim comes last, with all others before it. -/
theorem zip_inits_append_singleton {α : Type} (l : List α) (a : α) :
    (l ++ [a]).inits.zip (l ++ [a]) = l.inits.zip l ++ [(l, a)] := by
  induction l with
  | nil => rfl
  | cons b l ih =>
      rw [List.cons_append, List.inits_cons, List.zip_cons_cons, List.zip_map_left, ih,
        List.inits_cons, List.zip_cons_cons, List.zip_map_left]
      simp

/-- A claim is reported exactly if the claims before it have given its name to another path. -/
theorem notices_registry (claims : List (FileRecord × String)) :
    (registry claims).notices = (claims.inits.zip claims).filterMap fun p => conflict? p.1 p.2 := by
  induction claims using List.reverseRecOn with
  | nil => rfl
  | append_singleton claims c ih =>
      rw [registry_append_singleton, Noted.notices_bind, ih, notices_stake,
        zip_inits_append_singleton, List.filterMap_append]
      cases h : conflict? claims c <;> simp [h]

theorem level_of_conflict? {earlier : List (FileRecord × String)} {n : Notice}
    (h : conflict? earlier c = some n) :
    n.level = .warning := by
  obtain ⟨first, -, h⟩ := Option.bind_eq_some_iff.mp h
  split at h
  · cases h
  · rw [← Option.some.inj h]
    rfl

/-- The first claim to a name counts. The map lists the claimed names in the order of their first
claims and gives each the path of the first script that exports it. Reported are exactly the claims
to a name that the claims before it have given to another path, in order. What the first files
register is the start of what all of them register. -/
theorem build_first_claims (records : List FileRecord) :
    (build records).value.map (·.1) = unique ((claimsOf records).map (·.2)) ∧
      (∀ name, (build records).value.owner? name =
        (records.find? (·.offers name)).map (·.outputPath)) ∧
      (build records).notices.filter (·.atLeast .warning) =
        ((claimsOf records).inits.zip (claimsOf records)).filterMap (fun p => conflict? p.1 p.2) ∧
      ∀ k, (build (records.take k)).value <+: (build records).value := by
  refine ⟨?_, owner?_build records, ?_, fun k => ?_⟩
  · rw [build_eq_registry]
    exact keys_registry _
  · have hreports : (registry (claimsOf records)).notices.filter (·.atLeast .warning) =
        (registry (claimsOf records)).notices := by
      rw [List.filter_eq_self, notices_registry]
      intro n hn
      obtain ⟨p, -, hp⟩ := List.mem_filterMap.mp hn
      rw [Notice.atLeast, level_of_conflict? hp]
      rfl
    rw [build_eq_registry, Noted.notices_bind, List.filter_append, hreports, notices_registry]
    simp [Noted.notices_bind, Noted.tell, Notice.atLeast, Notice.level, Level.rank, pure]
  · have hsplit : claimsOf records = claimsOf (records.take k) ++ claimsOf (records.drop k) := by
      rw [← claimsOf_append, List.take_append_drop]
    rw [build_eq_registry, build_eq_registry, hsplit]
    exact prefix_registry _ _

end Claims

end ExportMap

end ScriptModules
