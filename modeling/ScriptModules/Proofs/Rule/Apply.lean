import ScriptModules.Rule.Build
import ScriptModules.Proofs.Pattern.Scan
import ScriptModules.Proofs.Work

/-!
# Applying rules

Rules in a row are applied in two parts wherever the row is cut, a rule that removes a pattern
always succeeds, and a script without settings of its own gets the standard rules for the way its
wrapper ends.
-/

namespace ScriptModules

namespace Rule

theorem applyAll_append (first second : List Rule) (text : List Char) :
    applyAll (first ++ second) text = applyAll first text >>= applyAll second := by
  rw [applyAll, List.foldlM_append]
  rfl

theorem applyAll_cons (r : Rule) (rest : List Rule) (text : List Char) :
    applyAll (r :: rest) text = r.apply text >>= applyAll rest := by
  rw [applyAll, List.foldlM_cons]
  rfl

@[simp] theorem applyAll_nil (text : List Char) : applyAll [] text = .ok text := rfl

theorem expand_verbatim (s : String) :
    (Pattern.Template.verbatim s).expand = fun _ => s.toList := by
  funext m
  simp [Pattern.Template.verbatim, Pattern.Template.expand]

theorem apply_replacing (n : Pattern.Node) (s : String) (text : List Char) :
    (replacing n s).apply text = .ok (n.replace none (fun _ => s.toList) text) := by
  change Except.ok (n.replace none (Pattern.Template.verbatim s).expand text) = _
  rw [expand_verbatim]

theorem apply_removing (n : Pattern.Node) (text : List Char) :
    (removing n).apply text = .ok (n.remove text) := by
  rw [removing, apply_replacing]
  rfl

end Rule

/-- Without settings of its own a script gets the standard rules. -/
theorem buildRules_none {namespaceName : String} {exports : List Export} {text : String}
    {rules : List Rule} (h : (buildRules namespaceName exports none text).run.value = .ok rules) :
    ∃ closer, Rule.closerOf text.toList = .ok closer ∧
      rules = Rule.standard namespaceName exports closer := by
  obtain ⟨closer, hcloser, h⟩ := Work.value_bind_eq_ok.mp h
  refine ⟨closer, hcloser, ?_⟩
  cases closer with
  | none => simpa using (Except.ok.inj h).symm
  | some c =>
      obtain ⟨-, -, h⟩ := Work.value_bind_eq_ok.mp h
      simpa using (Except.ok.inj h).symm

theorem applyRules_eq_ok {rules : List Rule} {text result : String}
    (h : applyRules rules text = .ok result) :
    Rule.applyAll rules text.toList = .ok result.toList := by
  rw [applyRules] at h
  split at h
  · rename_i r hr
    rw [hr, ← Except.ok.inj h, String.toList_ofList]
  · cases h

end ScriptModules
