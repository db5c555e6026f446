import ScriptModules.Proofs.Export.Writable

/-!
# Public names of exports

Exports are listed once as entries, which is not to say that each public name is listed once: a name
can be exported under another one that is exported too. Plain exports cannot meet that way, so only
dialects that read entries off a script can list a public name twice. What is assigned to a module
is never exported under its own name by an entry, and there two exports of one public name stand for
two different names.
-/

namespace ScriptModules

open Pattern

namespace Export

variable {baseName : String} {e e' : Export}

/-- The name of an export where it is declared. -/
def ownName : Export → String
  | plain name => name
  | entry name _ _ => name

/-- An export that is plain, or that gives a name another one. -/
inductive Assigned : Export → Prop
  | plain {name : String} : Assigned (.plain name)
  | renamed {name new : String} (h : name ≠ new) : Assigned (.entry name .asName new)

/-- A plain export is told by its public name. -/
theorem eq_of_publicName_eq (h : e.isEntry = false) (h' : e'.isEntry = false)
    (heq : e.publicName = e'.publicName) :
    e = e' := by
  cases e with
  | plain name =>
      cases e' with
      | plain name' => exact congrArg Export.plain heq
      | entry name' action complement => cases h'
  | entry name action complement => cases h

/-- An assigned export is told by its public name and its own name. -/
theorem Assigned.eq_of_ownName_eq (h : e.Assigned) (h' : e'.Assigned)
    (heq : e.publicName = e'.publicName) (hown : e.ownName = e'.ownName) : e = e' := by
  cases h with
  | @plain name =>
      cases h' with
      | plain => exact congrArg Export.plain heq
      | @renamed name' new' hne =>
          have hname : name = name' := hown
          have hnew : name = new' := heq
          exact absurd (hname.symm.trans hnew) hne
  | @renamed name new hne =>
      cases h' with
      | @plain name' =>
          have hname : name = name' := hown
          have hnew : new = name' := heq
          exact absurd (hname.trans hnew.symm) hne
      | @renamed name' new' _ =>
          obtain rfl : name = name' := hown
          obtain rfl : new = new' := heq
          rfl

theorem assigned_ofProperty {item : List Char} (h : e ∈ (ofProperty baseName item).value) :
    e.Assigned := by
  rw [ofProperty] at h
  split at h
  · simp at h
  · split at h
    · simp at h
    · rename_i m hm
      cases hvalue : m.group? 2 with
      | none =>
          rw [hvalue] at h
          obtain rfl := List.mem_singleton.mp h
          exact .plain
      | some value =>
          simp only [hvalue] at h
          split at h
          · obtain rfl := List.mem_singleton.mp h
            exact .plain
          · rename_i hne
            obtain rfl := List.mem_singleton.mp h
            exact .renamed fun heq => hne (String.ofList_injective heq)

theorem assigned_ofAssignment {assignment : List Char}
    (h : e ∈ (ofAssignment baseName assignment).value) :
    e.Assigned := by
  rw [ofAssignment] at h
  split at h
  · simp at h
  · rename_i m hm
    cases hname : m.group? 2 with
    | none =>
        rw [hname, Noted.value_bind, Noted.value_pure] at h
        obtain ⟨item, -, he⟩ := Noted.mem_flatten_mapM.mp h
        exact assigned_ofProperty he
    | some name =>
        simp only [hname] at h
        split at h
        · simp at h
        · obtain rfl := List.mem_singleton.mp h
          exact .plain

/-- Only module statements and assignments of a module's exports give entries. -/
theorem isEntry_extract {namespaceName text : String} {c : Classification} (hes6 : c.dialect ≠ .es6)
    (hcjs : c.dialect ≠ .cjs) (h : e ∈ (extract namespaceName baseName c text).value) :
    e.isEntry = false := by
  rw [extract] at h
  cases hdialect : c.dialect with
  | es6 => exact absurd hdialect hes6
  | cjs => exact absurd hdialect hcjs
  | amd =>
      simp only [hdialect] at h
      simp at h
  | classic =>
      simp only [hdialect] at h
      obtain ⟨s, -, he⟩ := List.mem_flatMap.mp h
      obtain ⟨name, -, rfl⟩ := List.mem_map.mp he
      rfl
  | prototype | library =>
      simp only [hdialect] at h
      obtain ⟨name, -, rfl⟩ := List.mem_map.mp h
      rfl
  | umd | unknown =>
      simp only [hdialect] at h
      obtain rfl := List.mem_singleton.mp h
      rfl

theorem assigned_extract {namespaceName text : String} {c : Classification}
    (hcjs : c.dialect = .cjs) (h : e ∈ (extract namespaceName baseName c text).value) :
    e.Assigned := by
  rw [extract] at h
  simp only [hcjs, Noted.value_bind, Noted.value_pure] at h
  obtain ⟨s, -, he⟩ := Noted.mem_flatten_mapM.mp h
  exact assigned_ofAssignment he

end Export

section Resolved

variable {namespaceName baseName text : String} {c : Classification} {e : Export}

/-- Without an edge case, an export is read off the script or is its base name. -/
theorem mem_resolveExports (h : e ∈ (resolveExports namespaceName baseName none c text).value) :
    e ∈ (Export.extract namespaceName baseName c text).value ∨ e = .plain baseName := by
  simp only [resolveExports, Option.bind_none, Noted.value_bind, Option.map_none, Option.getD_none,
    List.append_nil] at h
  split at h
  · exact .inr (List.mem_singleton.mp h)
  · exact .inl (mem_unique.mp h)

theorem nodup_resolveExports (namespaceName baseName : String) (c : Classification)
    (text : String) :
    (resolveExports namespaceName baseName none c text).value.Nodup := by
  simp only [resolveExports, Option.bind_none, Noted.value_bind]
  split
  · exact nodup_unique (α := Export) _
  · exact nodup_unique (α := Export) _

theorem isEntry_resolveExports (hes6 : c.dialect ≠ .es6) (hcjs : c.dialect ≠ .cjs)
    (h : e ∈ (resolveExports namespaceName baseName none c text).value) : e.isEntry = false := by
  rcases mem_resolveExports h with h | rfl
  · exact Export.isEntry_extract hes6 hcjs h
  · rfl

theorem assigned_resolveExports (hcjs : c.dialect = .cjs)
    (h : e ∈ (resolveExports namespaceName baseName none c text).value) : e.Assigned := by
  rcases mem_resolveExports h with h | rfl
  · exact Export.assigned_extract hcjs h
  · exact .plain

end Resolved

/-- Without an edge case, the exports of a script differ from one another. Of two with the same
public name at least one is an entry, so public names are listed once in dialects without entries;
and where exports are assigned to a module, the two stand for different names. -/
theorem publicNames_resolveExports (namespaceName baseName text : String) :
    let c := classify namespaceName text
    let exports := (resolveExports namespaceName baseName none c text).value
    exports.Nodup ∧
      (exports.Pairwise fun e e' => e.publicName = e'.publicName → e.isEntry = true ∨
        e'.isEntry = true) ∧
      (c.dialect ≠ .es6 → c.dialect ≠ .cjs → (exports.map Export.publicName).Nodup) ∧
      (c.dialect = .cjs → exports.Pairwise fun e e' => e.publicName = e'.publicName →
        e.ownName ≠ e'.ownName) := by
  intro c exports
  have hnodup : exports.Nodup := nodup_resolveExports namespaceName baseName c text
  have hentry : exports.Pairwise fun e e' => e.publicName = e'.publicName → e.isEntry = true ∨
      e'.isEntry = true := by
    apply hnodup.imp
    intro e e' hne heq
    by_contra hplain
    rw [not_or, Bool.not_eq_true, Bool.not_eq_true] at hplain
    exact hne (Export.eq_of_publicName_eq hplain.1 hplain.2 heq)
  refine ⟨hnodup, hentry, fun hes6 hcjs => ?_, fun hcjs => ?_⟩
  · rw [List.Nodup, List.pairwise_map]
    apply hentry.imp_of_mem
    intro e e' he he' hone heq
    rcases hone heq with h | h
    · rw [isEntry_resolveExports hes6 hcjs he] at h
      cases h
    · rw [isEntry_resolveExports hes6 hcjs he'] at h
      cases h
  · apply hnodup.imp_of_mem
    intro e e' he he' hne heq hown
    exact hne ((assigned_resolveExports hcjs he).eq_of_ownName_eq
      (assigned_resolveExports hcjs he') heq hown)

/-- One key with two values, one of them its own name, a repeated property, and a value that is also
a key. -/
theorem publicNames_resolveExports_assigned :
    let text := "module.exports = \x7b a: b, a, c: a, a: b \x7d"
    let exports := (resolveExports "NS" "m" none (classify "NS" text) text).value
    exports = [.entry "b" .asName "a", .plain "a", .entry "a" .asName "c"] ∧
      exports.Pairwise fun e e' => e.publicName = e'.publicName → e.ownName ≠ e'.ownName := by
  have hdialect : (classify "NS" "module.exports = \x7b a: b, a, c: a, a: b \x7d").dialect =
      .cjs := by decide +kernel
  have hexports :
      (resolveExports "NS" "m" none (classify "NS" "module.exports = \x7b a: b, a, c: a, a: b \x7d")
      "module.exports = \x7b a: b, a, c: a, a: b \x7d").value =
      [.entry "b" .asName "a", .plain "a", .entry "a" .asName "c"] := by decide +kernel
  exact ⟨hexports, (publicNames_resolveExports "NS" "m" _).2.2.2 hdialect⟩

/-- An object may give one key two values, and a module may export two names under one. -/
theorem publicName_listed_twice :
    (resolveExports "NS" "m" none (classify "NS" "module.exports = \x7b a: b, a: c \x7d")
      "module.exports = \x7b a: b, a: c \x7d").value.map Export.publicName = ["a", "a"] ∧
    (resolveExports "NS" "m" none (classify "NS" "export \x7b a \x7d; export \x7b b as a \x7d")
      "export \x7b a \x7d; export \x7b b as a \x7d").value.map Export.publicName = ["a", "a"] := by
  constructor
  · decide +kernel
  · decide +kernel

end ScriptModules
