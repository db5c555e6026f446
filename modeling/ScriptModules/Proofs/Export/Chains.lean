import ScriptModules.Proofs.Export.Links
import ScriptModules.Proofs.FirstOccurrence

/-!
# Exports of a chain

A script may assign one function to several members of the namespace in a chain. The signature of
such a chain takes all of its links, however much white space there is around the equals signs, and
the exports are read off the links in order.
-/

namespace ScriptModules

open Pattern Pattern.Node Text

/-- A link of a chain of assignments: a member of the namespace, and the blanks before and after its
equals sign. -/
structure Link where
  name : String
  before : List Char
  after : List Char
  ne_nil : name.toList ≠ []
  isWord_name : ∀ x ∈ name.toList, isWord x = true
  ne_var : name ≠ "var"
  isBlank_before : ∀ x ∈ before, isBlank x = true
  isBlank_after : ∀ x ∈ after, isBlank x = true

/-- The text of a link. -/
def Link.written (namespaceName : String) (l : Link) : List Char :=
  linkText namespaceName l.name.toList l.before l.after

/-- The text of a chain of assignments before `tail`. -/
def chain (namespaceName : String) (tail : List Char) : List Link → List Char
  | [] => tail
  | l :: links => l.written namespaceName ++ chain namespaceName tail links

theorem Link.isIdent_name (l : Link) : ∀ x ∈ l.name.toList, isIdent x = true :=
  fun x hx => by simp [isIdent, l.isWord_name x hx]

theorem chain_append (namespaceName : String) (tail rest : List Char) (links : List Link) :
    chain namespaceName (tail ++ rest) links = chain namespaceName tail links ++ rest := by
  induction links with
  | nil => rfl
  | cons l links ih => rw [chain, chain, ih, List.append_assoc]

theorem links_chain (namespaceName : String) (tail : List Char) (links : List Link) :
    Links namespaceName tail (chain namespaceName tail links) (links.map (·.name.toList)) := by
  induction links with
  | nil => exact .nil
  | cons l links ih => exact .cons ⟨l.ne_nil, l.isIdent_name⟩ l.isBlank_before l.isBlank_after ih

section Resolved

variable {namespaceName baseName text : String} {tail : List Char} {l : Link} {links : List Link}

/-- A script that is classified by a chain has chains in it, and records all of them. -/
theorem found_classic (h : (classify namespaceName text).dialect = .classic) :
    (Signature.classic namespaceName).groupTexts 0 text.toList ≠ [] ∧
      (classify namespaceName text).found =
      ((Signature.classic namespaceName).groupTexts 0 text.toList).map String.ofList := by
  have hrecognize := Export.recognize_classify namespaceName text
  rw [h, recognize, Classification.ofFound] at hrecognize
  split at hrecognize
  · cases hrecognize
  · rename_i hempty
    exact ⟨by simpa using hempty, by rw [← Option.some.inj hrecognize]⟩

theorem groupTexts_classic (hne : namespaceName ≠ "")
    (hname : ∀ x ∈ namespaceName.toList, isIdent x = true) (hdot : '.' ∉ tail)
    (hword : tail.head?.any isWord = false) :
    (Signature.classic namespaceName).groupTexts 0
      (chain namespaceName ("function".toList ++ tail) (l :: links)) =
      [chain namespaceName "function".toList (l :: links)] := by
  have hn := advances_classic namespaceName
  generalize htext : chain namespaceName ("function".toList ++ tail) (l :: links) = text
  have hc :
      (Cursor.start text).after = chain namespaceName "function".toList (l :: links) ++ tail := by
    rw [← chain_append, htext]
    rfl
  have hfinal : ∀ name, ¬Assigns namespaceName name ("function".toList ++ tail) :=
    fun name h => hdot (by simpa using h.dot_mem)
  have hmatch :=
    (takes_classic (c := (Cursor.start text).fresh) hne hname
      (links_chain namespaceName _ (l :: links)) hword hfinal rfl hc).matchAt
  have hrest :
      ((Cursor.start text).fresh.beyond
        (chain namespaceName "function".toList (l :: links))).after = tail :=
    Cursor.after_beyond hc
  rw [groupTexts, allMatches_eq_matchesAt hn, matchesAt_found hn hmatch,
    matchesAt_eq_nil hn fun a b hab => ?_, List.map_singleton, Match.group_zero_of_leads]
  · exact Cursor.leads_beyond ⟨tail, hc.symm⟩
  · rw [matchAt_eq_none_iff, List.eq_nil_iff_forall_not_mem]
    intro d hd
    obtain ⟨-, name, hassigns⟩ := assigns_of_mem_ways hd
    have hmem := hassigns.dot_mem
    rw [Cursor.after_fresh, Cursor.after_beyond hab] at hmem
    exact hdot (by rw [← hrest, hab]; simp [hmem])

/-- The exports of a script that is a chain of assignments of a function are the members assigned
to. -/
theorem resolveExports_chain (hne : namespaceName ≠ "")
    (hname : ∀ x ∈ namespaceName.toList, isIdent x = true) (hdot : '.' ∉ tail)
    (hword : tail.head?.any isWord = false) (hnodup : ((l :: links).map Link.name).Nodup)
    (htext : text.toList = chain namespaceName ("function".toList ++ tail) (l :: links))
    (hclassic : (classify namespaceName text).dialect = .classic) :
    (resolveExports namespaceName baseName none (classify namespaceName text) text).value =
      (l :: links).map fun l => .plain l.name := by
  have hextract : (Export.extract namespaceName baseName (classify namespaceName text) text).value =
      (l :: links).map fun l => .plain l.name := by
    rw [Export.extract]
    simp only [hclassic, (found_classic hclassic).2, htext, groupTexts_classic hne hname hdot hword,
      List.map_singleton, List.flatMap_singleton, String.toList_ofList,
      groupTexts_target hne hname (by decide : '.' ∉ "function".toList)
      (links_chain namespaceName _ (l :: links))]
    simp [Function.comp_def]
  have hplain : ((l :: links).map fun l => Export.plain l.name).Nodup := by
    rw [List.Nodup, List.pairwise_map] at hnodup ⊢
    exact hnodup.imp fun hdiffers h => hdiffers (Export.plain.inj h)
  simp only [resolveExports, Option.bind_none, Noted.value_bind, hextract]
  rw [if_neg (by simp)]
  simpa using unique_of_nodup hplain

end Resolved

end ScriptModules
