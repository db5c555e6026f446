import ScriptModules.Proofs.Import.Clause
import ScriptModules.Proofs.Pattern.Exchange
import ScriptModules.Proofs.Rule.NamespaceFree

/-!
# Dropping the namespace in one pass

The namespace is dropped by two rules: the first gives its member `Math` another name, the second
one drops the namespace from what the first one has left. No name that the first rule writes is a
reference to the namespace, and no reference is hidden or joined by it, so both together do what one
pass over the text does.
-/

namespace ScriptModules

open Pattern Text

/-- The spots are references to the namespace, with more text perhaps. -/
def OfNamespace (name : List Char) (spot : Spot) : Prop :=
  ∀ left w rest, spot left w rest → left.any isIdent = false ∧ name ++ ['.'] <+: w

/-- The namespace with its dot, before the given text. -/
def memberSpot (name tail : List Char) :
    Spot := fun left w _ => left.any isIdent = false ∧ w = name ++ '.' :: tail

section References

variable {name : List Char} {spot : Spot} {left : Option Char} {s v rest out : List Char} {y : Char}

theorem ofNamespace_memberSpot (name tail : List Char) :
    OfNamespace name (memberSpot name tail) := by
  rintro left w rest ⟨hleft, rfl⟩
  exact ⟨hleft, tail, by simp⟩

theorem definite_memberSpot (name tail : List Char) : Definite (memberSpot name tail) where
  ne_nil := by
    rintro left w rest ⟨-, rfl⟩
    simp
  unique := by
    rintro left w rest w' rest' ⟨-, rfl⟩ ⟨-, rfl⟩ -
    rfl

theorem reads_member (namespaceName : String) :
    (Signature.member namespaceName).Reads (memberSpot namespaceName.toList []) := by
  intro c d
  rw [mem_ways_member]
  constructor
  · rintro ⟨hleft, hstart, rfl⟩
    exact ⟨_, _, ⟨hleft, rfl⟩, (Cursor.leads_beyond hstart).after, rfl⟩
  · rintro ⟨_, rest, ⟨hleft, rfl⟩, hafter, rfl⟩
    exact ⟨hleft, ⟨rest, hafter.symm⟩, rfl⟩

/-- A word after the dot is read with the namespace. -/
theorem reads_member_word (namespaceName tail : String) :
    (Node.sequence [Signature.member namespaceName, Node.word tail]).Reads
      (memberSpot namespaceName.toList tail.toList) := by
  intro c d
  simp only [Node.sequence, Node.mem_ways_seq, mem_ways_member, Node.mem_ways_word]
  constructor
  · rintro ⟨_, ⟨hleft, ⟨r, hname⟩, rfl⟩, ⟨rest, htail⟩, rfl⟩
    rw [Cursor.after_beyond hname.symm] at htail
    refine ⟨_, rest, ⟨hleft, rfl⟩, ?_, ?_⟩
    · rw [← hname, ← htail]
      simp
    · rw [Cursor.beyond_beyond]
      simp
  · rintro ⟨_, rest, ⟨hleft, rfl⟩, hafter, rfl⟩
    have hsplit : c.after = (namespaceName.toList ++ ['.']) ++ (tail.toList ++ rest) := by
      simpa using hafter
    refine ⟨_, ⟨hleft, ⟨_, hsplit.symm⟩, rfl⟩, ⟨rest, (Cursor.after_beyond hsplit).symm⟩, ?_⟩
    rw [Cursor.beyond_beyond]
    simp

theorem OfNamespace.bare_of_isIdent (hspot : OfNamespace name spot) (h : left.any isIdent = true)
    (s : List Char) :
    Bare spot left s := by
  intro w rest _ hw
  rw [(hspot _ _ _ hw).1] at h
  cases h

/-- No reference starts where the text goes on in another way than with the namespace and a dot. -/
theorem OfNamespace.bare_of_run (hspot : OfNamespace name spot)
    (hname : ∀ x ∈ name, isIdent x = true) (hv : ∀ x ∈ v, isIdent x = true) (hy : isIdent y = false)
    (hother : v = name → y ≠ '.') :
    Bare spot left (v ++ y :: rest) := by
  intro w r hsplit hw
  obtain ⟨q, rfl⟩ := (hspot _ _ _ hw).2
  have heq : v ++ y :: rest = name ++ '.' :: (q ++ r) := by simpa using hsplit
  obtain ⟨hrun, hdot, -⟩ := Statement.eq_of_append_of_ends hv hname hy (by decide) heq
  exact hother hrun hdot

/-- At a character that is no part of an identifier no reference starts. -/
theorem OfNamespace.bare_of_not_isIdent (hspot : OfNamespace name spot)
    (hname : ∀ x ∈ name, isIdent x = true) (hne : name ≠ []) (hy : isIdent y = false) :
    Bare spot left (y :: rest) :=
  hspot.bare_of_run (v := []) hname (by simp) hy fun h => absurd h.symm hne

/-- In a run of identifier characters a reference may start at its first character only. -/
theorem OfNamespace.free_run (hspot : OfNamespace name spot) (hv : ∀ x ∈ v, isIdent x = true)
    (hfirst : Bare spot left (v ++ rest)) : Free spot left v rest := by
  induction v generalizing left with
  | nil => trivial
  | cons x v ih =>
      refine ⟨hfirst,
        ih (fun z hz => hv z (List.mem_cons_of_mem _ hz)) (hspot.bare_of_isIdent ?_ _)⟩
      exact hv x (by simp)

/-- A run with which the outcome starts, where no reference does, stands in the text. -/
theorem OfNamespace.exists_of_run (hspot : OfNamespace name spot) {q : List Char}
    (hv : ∀ x ∈ v, isIdent x = true) (h : Exchanges spot out left s (v ++ q))
    (hfirst : Bare spot left s) :
    ∃ r, s = v ++ r ∧ Exchanges spot out (lastOf left v) r q ∧
      (v ≠ [] → Bare spot (lastOf left v) r) := by
  induction v generalizing left s with
  | nil => exact ⟨s, rfl, h, by simp⟩
  | cons x v ih =>
      obtain ⟨r, rfl, hrest⟩ := Exchanges.exists_of_cons (v := v ++ q) h hfirst
      have hbare : Bare spot (some x) r :=
        hspot.bare_of_isIdent (show (some x).any isIdent = true from hv x (by simp)) r
      obtain ⟨r, rfl, hlast, hnext⟩ := ih (fun z hz => hv z (List.mem_cons_of_mem _ hz)) hrest hbare
      refine ⟨r, rfl, hlast, fun _ => ?_⟩
      cases v with
      | nil => exact hbare
      | cons z v => exact hnext (by simp)

end References

/-- One pass that drops the namespace from a text: `skip` characters are passed over first, and
`left` is the character before the text. Where a reference to the namespace starts, its member
`Math` gets its other name, and of any other member the namespace with its dot is passed over. -/
def dropInOnePass (name : List Char) : Nat → Option Char → List Char → List Char
  | _, _, [] => []
  | skip + 1, _, x :: rest => dropInOnePass name skip (some x) rest
  | 0, left, x :: rest =>
    if !left.any isIdent && (name ++ ['.']).isPrefixOf (x :: rest) then
      if (name ++ ".Math.".toList).isPrefixOf (x :: rest) then
        "_Math.".toList ++ dropInOnePass name (name.length + 5) (some x) rest
      else dropInOnePass name name.length (some x) rest
    else x :: dropInOnePass name 0 (some x) rest

section OnePass

variable {name : List Char} {left : Option Char} {s rest u v : List Char}

theorem dropInOnePass_skip (w : List Char) :
    dropInOnePass name w.length left (w ++ rest) = dropInOnePass name 0 (lastOf left w) rest := by
  induction w generalizing left with
  | nil => rfl
  | cons x w ih => exact ih

/-- A reference that is passed over has a first character, and a dot at its end. -/
theorem exists_cons_reference (name : List Char) {w : List Char} (hw : lastOf none w = some '.')
    (rest : List Char) :
    ∃ x v, w = x :: v ∧ v.length + 1 = w.length ∧
      dropInOnePass name v.length (some x) (v ++ rest) = dropInOnePass name 0 (some '.') rest := by
  cases w with
  | nil => cases hw
  | cons x v =>
      exact ⟨x, v, rfl, rfl, by rw [dropInOnePass_skip, show lastOf (some x) v = some '.' from hw]⟩

/-- At the member `Math` of the namespace its other name is written. -/
theorem dropInOnePass_math (hleft : left.any isIdent = false) :
    dropInOnePass name 0 left (name ++ ".Math.".toList ++ rest) =
      "_Math.".toList ++ dropInOnePass name 0 (some '.') rest := by
  obtain ⟨x, w, hw, hlength, hskip⟩ :=
    exists_cons_reference name (w := name ++ ".Math.".toList) (by simp) rest
  have hlength : w.length = name.length + 5 := by simpa using hlength
  have hmember : (name ++ ['.']).isPrefixOf (x :: (w ++ rest)) = true := by
    rw [List.isPrefixOf_iff_prefix, ← List.cons_append, ← hw]
    exact ⟨"Math.".toList ++ rest, by simp⟩
  have hmath : (name ++ ".Math.".toList).isPrefixOf (x :: (w ++ rest)) = true := by
    rw [List.isPrefixOf_iff_prefix, ← List.cons_append, ← hw]
    exact List.prefix_append _ _
  rw [hw, List.cons_append, dropInOnePass, hmember, hmath, ← hlength, hskip]
  simp [hleft]

/-- At another member the namespace with its dot is passed over. -/
theorem dropInOnePass_member (hleft : left.any isIdent = false)
    (hother : ¬name ++ ".Math.".toList <+: name ++ '.' :: rest) :
    dropInOnePass name 0 left (name ++ '.' :: rest) = dropInOnePass name 0 (some '.') rest := by
  have hsplit : name ++ '.' :: rest = (name ++ ['.']) ++ rest := by simp
  obtain ⟨x, w, hw, hlength, hskip⟩ :=
    exists_cons_reference name (w := name ++ ['.']) (by simp) rest
  have hlength : w.length = name.length := by simpa using hlength
  have hmember : (name ++ ['.']).isPrefixOf (x :: (w ++ rest)) = true := by
    rw [List.isPrefixOf_iff_prefix, ← List.cons_append, ← hw]
    exact List.prefix_append _ _
  have hmath : (name ++ ".Math.".toList).isPrefixOf (x :: (w ++ rest)) = false := by
    rw [← Bool.not_eq_true, List.isPrefixOf_iff_prefix, ← List.cons_append, ← hw, ← hsplit]
    exact hother
  rw [hsplit, hw, List.cons_append, dropInOnePass, hmember, hmath, ← hlength, hskip]
  simp [hleft]

theorem dropInOnePass_copy {x : Char} (h : Bare (memberSpot name []) left (x :: rest)) :
    dropInOnePass name 0 left (x :: rest) = x :: dropInOnePass name 0 (some x) rest := by
  rw [dropInOnePass, if_neg]
  intro hmember
  simp only [Bool.and_eq_true, Bool.not_eq_true', List.isPrefixOf_iff_prefix] at hmember
  obtain ⟨hleft, r, hr⟩ := hmember
  exact h _ r hr.symm ⟨hleft, rfl⟩

/-- The name that the first rule writes is no reference to the namespace, and none starts in it. -/
theorem free_alias (hname : ∀ x ∈ name, isIdent x = true) (hne : name ≠ [])
    (hother : name ≠ "_Math".toList) :
    Free (memberSpot name []) left "_Math.".toList rest := by
  have hmember := ofNamespace_memberSpot name []
  have hword : ∀ x ∈ "_Math".toList, isIdent x = true := List.all_eq_true.mp (by decide)
  have hsplit : "_Math.".toList = "_Math".toList ++ ['.'] := by decide
  rw [hsplit]
  refine free_append (hmember.free_run hword ?_)
    ⟨hmember.bare_of_not_isIdent hname hne (by decide), trivial⟩
  exact hmember.bare_of_run hname hword (by decide) fun h => absurd h.symm hother

/-- What the two rules do one after the other is done in one pass. -/
theorem eq_dropInOnePass (hname : ∀ x ∈ name, isIdent x = true) (hne : name ≠ [])
    (hother : name ≠ "_Math".toList)
    (hfirst : Exchanges (memberSpot name "Math.".toList) "_Math.".toList left s u)
    (hsecond : Exchanges (memberSpot name []) [] left u v) : v = dropInOnePass name 0 left s := by
  have hmath := ofNamespace_memberSpot name "Math.".toList
  induction hlength : s.length using Nat.strongRecOn generalizing left s u v with
  | ind k ih =>
      subst hlength
      by_cases hbare : Bare (memberSpot name "Math.".toList) left s
      · by_cases hother' : Bare (memberSpot name []) left s
        · cases s with
          | nil =>
              obtain rfl := hfirst.of_nil (definite_memberSpot _ _) rfl
              exact hsecond.of_nil (definite_memberSpot _ _) rfl
          | cons x rest =>
              obtain ⟨u, rfl, hfirst'⟩ := hfirst.of_bare rfl hbare
              -- a reference in the outcome of the first rule would stand in the text
              have hcopy : Bare (memberSpot name []) left (x :: u) := by
                rintro w r hsplit ⟨hleft, rfl⟩
                rw [hsplit, List.append_assoc] at hfirst
                obtain ⟨t, ht, hrun, hnext⟩ := hmath.exists_of_run hname hfirst hbare
                obtain ⟨t', rfl, -⟩ := hrun.exists_of_cons (hnext hne)
                exact hother' (name ++ ['.']) t' (by simpa using ht) ⟨hleft, rfl⟩
              obtain ⟨v, rfl, hsecond'⟩ := hsecond.of_bare rfl hcopy
              rw [dropInOnePass_copy hother', ih _ (by simp) hfirst' hsecond' rfl]
        · obtain ⟨w, rest, rfl, hleft, rfl⟩ := exists_spot_of_not_bare hother'
          have hfree : Free (memberSpot name "Math.".toList) left (name ++ ['.']) rest :=
            free_append (hmath.free_run hname (by simpa using hbare))
              ⟨hmath.bare_of_not_isIdent hname hne (by decide), trivial⟩
          obtain ⟨u, rfl, hfirst'⟩ := hfirst.of_free hfree
          obtain ⟨v, rfl, hsecond'⟩ := hsecond.of_spot (definite_memberSpot _ _) rfl ⟨hleft, rfl⟩
          have hmiss : ¬name ++ ".Math.".toList <+: name ++ '.' :: rest := by
            rintro ⟨r, hr⟩
            exact hbare _ r (by simpa using hr.symm) ⟨hleft, rfl⟩
          have hshorter : rest.length < (name ++ ['.'] ++ rest).length :=
            (definite_memberSpot name []).length_lt ⟨hleft, rfl⟩
          have hsplit : name ++ ['.'] ++ rest = name ++ '.' :: rest := by simp
          rw [hsplit, dropInOnePass_member hleft hmiss, ih _ hshorter hfirst' hsecond' rfl]
          simp
      · obtain ⟨w, rest, rfl, hleft, rfl⟩ := exists_spot_of_not_bare hbare
        obtain ⟨u, rfl, hfirst'⟩ := hfirst.of_spot (definite_memberSpot _ _) rfl ⟨hleft, rfl⟩
        obtain ⟨v, rfl, hsecond'⟩ := hsecond.of_free (free_alias hname hne hother)
        have hshorter : rest.length < (name ++ '.' :: "Math.".toList ++ rest).length :=
          (definite_memberSpot name "Math.".toList).length_lt ⟨hleft, rfl⟩
        have hlast : lastOf left (name ++ '.' :: "Math.".toList) = lastOf left "_Math.".toList := by
          simp
        rw [hlast] at hfirst'
        have hsplit : name ++ '.' :: "Math.".toList = name ++ ".Math.".toList := by simp
        rw [ih _ hshorter hfirst' hsecond' rfl, hsplit, dropInOnePass_math hleft]
        rfl

end OnePass

/-- The rules that drop the namespace do what one pass over the text does. -/
theorem namespaceDropping_onePass {namespaceName : String} (hne : namespaceName ≠ "")
    (hname : ∀ x ∈ namespaceName.toList, isIdent x = true) (hother : namespaceName ≠ "_Math")
    (text : List Char) :
    Rule.applyAll (Rule.namespaceDropping namespaceName) text =
      .ok (dropInOnePass namespaceName.toList 0 none text) := by
  have hfirst :=
    (reads_member_word namespaceName "Math.").exchanges_replace (definite_memberSpot _ _)
      "_Math.".toList text
  have hsecond := (reads_member namespaceName).exchanges_replace (definite_memberSpot _ _) []
    ((Node.sequence [Signature.member namespaceName, Node.word "Math."]).replace none
      (fun _ => "_Math.".toList) text)
  have hpass := eq_dropInOnePass hname (by simpa using hne)
    (fun h => hother (String.toList_inj.mp h)) hfirst hsecond
  rw [Rule.namespaceDropping, Rule.applyAll_cons, Rule.apply_replacing]
  change Rule.applyAll [Rule.removing (Signature.member namespaceName)] _ = _
  rw [Rule.applyAll_cons, Rule.apply_removing, Node.remove, hpass]
  rfl

/-- A namespace called `Math` itself, with references one after the other. -/
theorem namespaceDropping_onePass_math :
    Rule.applyAll (Rule.namespaceDropping "Math") "Math.Math.Math.x+aMath.b".toList =
      .ok "_Math.x+aMath.b".toList ∧
      dropInOnePass "Math".toList 0 none "Math.Math.Math.x+aMath.b".toList =
        "_Math.x+aMath.b".toList := by
  have hpass : dropInOnePass "Math".toList 0 none "Math.Math.Math.x+aMath.b".toList =
      "_Math.x+aMath.b".toList := by
    decide
  have hname : ∀ x ∈ "Math".toList, isIdent x = true := List.all_eq_true.mp (by decide)
  exact ⟨hpass ▸ namespaceDropping_onePass (by decide) hname (by decide) _, hpass⟩

end ScriptModules
