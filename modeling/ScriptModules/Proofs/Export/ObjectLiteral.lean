import ScriptModules.Proofs.Export.Links

/-!
# Exports of an object

A module may assign an object to its exports. However the parts of the assignment are laid out, no
statement of another kind is read in it, as two identifiers never stand side by side and a brace
only follows the equals sign. The assignment is taken whole, and the properties of the object are
its exports, in order.
-/

namespace ScriptModules

open Pattern Pattern.Node Text

/-- Any number of blanks. -/
abbrev Blanks := { s : List Char // ∀ x ∈ s, isBlank x = true }

/-- An identifier between blanks. -/
structure Padded where
  before : Blanks
  name : String
  after : Blanks
  isIdentifier : IsIdentifier name.toList

/-- A property of an object: a key, with a value or without. -/
structure Property where
  key : Padded
  value : Option Padded

/-- An object that is assigned to the exports of a module, with the blanks around the equals sign,
after the opening brace and after a trailing comma. -/
structure ExportsObject where
  beforeEquals : Blanks
  afterEquals : Blanks
  opening : Blanks
  properties : List Property
  trailing : Option Blanks

theorem isBlank_append (b b' : Blanks) : ∀ x ∈ b.val ++ b'.val, isBlank x = true :=
  List.forall_mem_append.mpr ⟨b.2, b'.2⟩

/-- The text of a padded identifier. -/
def Padded.written (p : Padded) : List Char := p.before.val ++ (p.name.toList ++ p.after.val)

/-- The text of a property. -/
def Property.written (p : Property) : List Char :=
  match p.value with
  | none => p.key.written
  | some v => p.key.written ++ ':' :: v.written

/-- The export that a property declares. -/
def Property.exported (p : Property) : Export :=
  match p.value with
  | none => .plain p.key.name
  | some v => if v.name = p.key.name then .plain p.key.name else .entry v.name .asName p.key.name

namespace ExportsObject

/-- The text between the braces. -/
def inside (o : ExportsObject) : List Char :=
  o.opening.val ++ ([','].intercalate (o.properties.map Property.written) ++
    match o.trailing with
    | none => []
    | some blank => ',' :: blank.val)

/-- The text of the assignment. -/
def text (o : ExportsObject) : List Char :=
  "module.exports".toList ++ (o.beforeEquals.val ++ '=' ::
    (o.afterEquals.val ++ '\x7b' :: (o.inside ++ ['\x7d'])))

/-- What holds of blanks and of a property after blanks, and goes over to texts with a comma between
them, holds of the text between the braces. -/
theorem inside_induction {P : List Char → List Property → Prop} (blank : ∀ b : Blanks, P b.val [])
    (property : ∀ (b : Blanks) (p : Property), P (b.val ++ p.written) [p])
    (comma : ∀ {s t ps qs}, P s ps → P t qs → P (s ++ ',' :: t) (ps ++ qs)) (o : ExportsObject) :
    P o.inside o.properties := by
  have hlist : ∀ (ps : List Property) (b : Blanks),
      P (b.val ++ [','].intercalate (ps.map Property.written)) ps := by
    intro ps
    induction ps with
    | nil => intro b; simpa using blank b
    | cons p ps ih =>
        intro b
        cases ps with
        | nil => simpa using property b p
        | cons q ps =>
            have hrest := ih ⟨[], by simp⟩
            simpa [List.intercalate_cons_cons] using comma (property b p) hrest
  rw [inside]
  cases o.trailing with
  | none => simpa using hlist o.properties o.opening
  | some b => simpa using comma (hlist o.properties o.opening) (blank b)

end ExportsObject

section Layout

variable {s t : List Char} {x : Char}

/-- Nowhere do blanks alone stand between two identifiers. -/
def Apart (s : List Char) : Prop :=
  ∀ x blank y, isIdent x = true → blank ≠ [] → (∀ z ∈ blank, isBlank z = true) → isIdent y = true →
    ¬x :: (blank ++ [y]) <:+: s

theorem apart_of_solid {b w b' : List Char} (hb : ∀ x ∈ b, isBlank x = true)
    (hw : ∀ x ∈ w, isBlank x = false) (hb' : ∀ x ∈ b', isBlank x = true) :
    Apart (b ++ (w ++ b')) := by
  intro x blank y hx hne hblank hy hin
  have hleft := infix_of_blank_append hb (isBlank_of_isIdent hx) hin
  have hright := infix_of_append_blank (t := x :: blank) hb' (isBlank_of_isIdent hy) hleft
  obtain ⟨z, blank, rfl⟩ := List.exists_cons_of_ne_nil hne
  have hsolid := hw z (hright.subset (by simp))
  simp [hblank z (by simp)] at hsolid

theorem Apart.append (hs : Apart s) (ht : Apart t) (hident : isIdent x = false)
    (hblank : isBlank x = false) :
    Apart (s ++ x :: t) := by
  intro y blank z hy hne hall hz hin
  have hnot : x ∉ y :: (blank ++ [z]) := by
    simp only [List.mem_cons, List.mem_append, List.not_mem_nil, or_false]
    rintro (rfl | hx | rfl)
    · simp [hident] at hy
    · exact absurd (hall x hx) (by simp [hblank])
    · simp [hident] at hz
  rcases infix_or_of_not_mem hin hnot with h | h
  · exact hs y blank z hy hne hall hz h
  · exact ht y blank z hy hne hall hz h

theorem apart_blanks (b : Blanks) : Apart b.val := by
  simpa using apart_of_solid (w := []) b.2 (by simp) (show ∀ x ∈ [], isBlank x = true by simp)

theorem Padded.apart_written (b : Blanks) (p : Padded) : Apart (b.val ++ p.written) := by
  rw [written, ← List.append_assoc]
  exact apart_of_solid (isBlank_append b p.before) p.isIdentifier.isSolid.2 p.after.2

theorem ExportsObject.apart_inside (o : ExportsObject) : Apart o.inside := by
  refine inside_induction (P := fun s _ => Apart s) apart_blanks (fun b p => ?_)
    (fun hs ht => hs.append ht (by decide) (by decide)) o
  rw [Property.written]
  split
  · exact p.key.apart_written b
  · rename_i v _
    rw [← List.append_assoc]
    exact (p.key.apart_written b).append (v.apart_written ⟨[], by simp⟩) (by decide) (by decide)

/-- A character that may stand in a property. -/
abbrev InProperty (x : Char) : Prop := isBlank x = true ∨ isIdent x = true ∨ x = ':'

theorem Property.inProperty_written (b : Blanks) (p : Property) :
    ∀ x ∈ b.val ++ p.written, InProperty x := by
  have hblank (b : Blanks) : ∀ x ∈ b.val, InProperty x := fun x hx => .inl (b.2 x hx)
  have hpadded (p : Padded) : ∀ x ∈ p.written, InProperty x := by
    refine List.forall_mem_append.mpr
      ⟨hblank p.before, List.forall_mem_append.mpr ⟨fun x hx => ?_, hblank p.after⟩⟩
    exact .inr (.inl (p.isIdentifier.2 x hx))
  refine List.forall_mem_append.mpr ⟨hblank b, ?_⟩
  rw [written]
  split
  · exact hpadded p.key
  · exact List.forall_mem_append.mpr
      ⟨hpadded p.key, List.forall_mem_cons.mpr ⟨by decide, hpadded _⟩⟩

theorem ExportsObject.inProperty_inside (o : ExportsObject) :
    ∀ x ∈ o.inside, InProperty x ∨ x = ',' := by
  refine inside_induction (P := fun s _ => ∀ x ∈ s, InProperty x ∨ x = ',')
    (fun b x hx => .inl (.inl (b.2 x hx)))
    (fun b p x hx => .inl (p.inProperty_written b x hx)) (fun hs ht => ?_) o
  exact List.forall_mem_append.mpr ⟨hs, List.forall_mem_cons.mpr ⟨.inr rfl, ht⟩⟩

theorem ExportsObject.not_mem_inside (o : ExportsObject) (hx : x ∈ ['.', '\x7b', '\x7d']) :
    x ∉ o.inside := by
  have hall : ['.', '\x7b', '\x7d'].all (fun x => !decide (InProperty x ∨ x = ',')) = true := by
    decide
  intro hmem
  simpa [o.inProperty_inside x hmem] using List.all_eq_true.mp hall x hx

end Layout

section Statements

variable {text : List Char} {c d e : Cursor}

theorem exists_word_of_choice (ws : List String) (hne : ws ≠ [])
    (h : d ∈ (choice (ws.map word)).ways c) :
    ∃ w ∈ ws, c.after = w.toList ++ d.after := by
  induction ws with
  | nil => exact absurd rfl hne
  | cons w ws ih =>
      cases ws with
      | nil => exact ⟨w, by simp, (passes_word h).1⟩
      | cons v ws =>
          rcases mem_ways_alt.mp h with h | h
          · exact ⟨w, by simp, (passes_word h).1⟩
          · obtain ⟨u, hu, hafter⟩ := ih (by simp) h
            exact ⟨u, List.mem_cons_of_mem _ hu, hafter⟩

/-- Blanks between two words keep no identifiers apart. -/
theorem not_apart_of_gap {v w rest : List Char} (hsuffix : c.after <:+ text)
    (hc : c.after = w ++ d.after) (hw : w.getLast?.any isIdent = true) (hgap : e ∈ gap.ways d)
    (he : e.after = v ++ rest) (hv : v.head?.any isIdent = true) : ¬Apart text := by
  obtain ⟨blank, hne, hblank, hafter⟩ := passes_oneOrMore hgap
  obtain ⟨w, x, rfl⟩ : ∃ t x, w = t ++ [x] := by
    rcases List.eq_nil_or_concat' w with rfl | h
    · cases hw
    · exact h
  obtain ⟨y, v, rfl⟩ := List.exists_cons_of_ne_nil (show v ≠ [] by rintro rfl; cases hv)
  intro hapart
  refine hapart x blank y (by simpa using hw) hne (by simpa using hblank) (by simpa using hv) ?_
  refine .trans ⟨w, v ++ rest, ?_⟩ hsuffix.isInfix
  rw [hc, hafter, he]
  simp

/-- Between the first word of a statement and a brace stands no equals sign. -/
theorem factor_of_braces {k : Node} (hsuffix : c.after <:+ text)
    (hd : d ∈ ((choice [word "import", word "export"]).seq
      (blanks.seq ((optional (word "default")).seq (blanks.seq ((char '\x7b').seq k))))).ways c) :
    ∃ x u, isBlank x = false ∧ x ≠ '\x7b' ∧ '=' ∉ x :: u ∧ x :: (u ++ ['\x7b']) <:+: text := by
  obtain ⟨c₁, hword, hd⟩ := mem_ways_seq.mp hd
  obtain ⟨c₂, hblanks, hd⟩ := mem_ways_seq.mp hd
  obtain ⟨c₃, hdefault, hd⟩ := mem_ways_seq.mp hd
  obtain ⟨c₄, hblanks', hd⟩ := mem_ways_seq.mp hd
  obtain ⟨c₅, hbrace, -⟩ := mem_ways_seq.mp hd
  obtain ⟨w, hw, hafter⟩ := exists_word_of_choice ["import", "export"] (by simp) hword
  have hheads : ∀ w ∈ ["import", "export"],
      w.toList.head?.any (fun x => !isBlank x && x != '\x7b') = true ∧ '=' ∉ w.toList := by decide
  obtain ⟨hhead, hequals⟩ := hheads w hw
  obtain ⟨x, w, hx⟩ :=
    List.exists_cons_of_ne_nil (show w.toList ≠ [] by intro h; rw [h] at hhead; cases hhead)
  rw [hx] at hhead hequals hafter
  simp only [List.head?_cons, Option.any_some, Bool.and_eq_true, Bool.not_eq_true', bne_iff_ne]
    at hhead
  obtain ⟨blank, hblank, hafter₁, -⟩ := passes_blanks hblanks
  obtain ⟨blank', hblank', hafter₃, -⟩ := passes_blanks hblanks'
  obtain ⟨t, ht, hafter₂⟩ : ∃ t : List Char, '=' ∉ t ∧ c₂.after = t ++ c₃.after := by
    rcases mem_ways_optional.mp hdefault with h | rfl
    · exact ⟨_, by decide, (passes_word h).1⟩
    · exact ⟨[], by simp, rfl⟩
  have hsolid : isBlank '=' = false := by decide
  refine ⟨x, w ++ (blank ++ (t ++ blank')), hhead.1, hhead.2, ?_,
    .trans ⟨[], c₅.after, ?_⟩ hsuffix.isInfix⟩
  · simp only [List.mem_cons, List.mem_append, not_or] at hequals ⊢
    refine ⟨hequals.1, hequals.2, fun h => ?_, ht, fun h => ?_⟩
    · simp [hblank _ h] at hsolid
    · simp [hblank' _ h] at hsolid
  · rw [hafter, hafter₁, hafter₂, hafter₃, (passes_char hbrace).1]
    simp

/-- In a statement of a module, blanks stand between two identifiers, or a brace comes after a word
and what is no equals sign. -/
theorem factors_of_es6 (h : Signature.es6.occursIn text = true) :
    ¬Apart text ∨ ∃ x u, isBlank x = false ∧ x ≠ '\x7b' ∧ '=' ∉ x :: u ∧
      x :: (u ++ ['\x7b']) <:+: text := by
  obtain ⟨c, d, hd, hsuffix⟩ := exists_way_of_occursIn h
  obtain ⟨c', hstandalone, hd⟩ := mem_ways_seq.mp hd
  obtain ⟨-, rfl⟩ := mem_ways_notBehind.mp hstandalone
  rcases mem_ways_alt.mp hd with hd | hd
  · -- a declaration
    obtain ⟨c₁, hword, hd⟩ := mem_ways_seq.mp hd
    obtain ⟨c₂, hgap, hd⟩ := mem_ways_seq.mp hd
    obtain ⟨c₃, hkeyword, -⟩ := mem_ways_seq.mp hd
    obtain ⟨w, hw, hafter⟩ :=
      exists_word_of_choice ["default", "var", "let", "const", "function", "class"] (by simp)
      hkeyword
    have hheads : ∀ w ∈ ["default", "var", "let", "const", "function", "class"],
        w.toList.head?.any isIdent = true := by decide
    exact .inl
      (not_apart_of_gap hsuffix (passes_word hword).1 (by decide) hgap hafter (hheads w hw))
  rcases mem_ways_alt.mp hd with hd | hd
  · -- a list in braces
    exact .inr (factor_of_braces hsuffix hd)
  · -- a default import
    obtain ⟨c₁, hword, hd⟩ := mem_ways_seq.mp hd
    obtain ⟨c₂, hgap, hd⟩ := mem_ways_seq.mp hd
    obtain ⟨c₃, hname, -⟩ := mem_ways_seq.mp hd
    obtain ⟨name, hne, hident, hafter⟩ := passes_oneOrMore hname
    obtain ⟨y, name, rfl⟩ := List.exists_cons_of_ne_nil hne
    exact .inl (not_apart_of_gap hsuffix (passes_word hword).1 (by decide) hgap hafter
      (by simpa using hident y (by simp)))

namespace ExportsObject

variable (o : ExportsObject)

theorem text_eq : o.text = ("module.exports".toList ++ o.beforeEquals.val) ++ '=' ::
    (o.afterEquals.val ++ '\x7b' :: (o.inside ++ ['\x7d'])) :=
  (List.append_assoc ..).symm

/-- The equals sign comes after the exports of the module and before the object. -/
theorem factor_of_not_mem_equals {t : List Char} (ht : '=' ∉ t) (h : t <:+: o.text) :
    t <:+: "module.exports".toList ++ o.beforeEquals.val ∨
      t <:+: o.afterEquals.val ++ '\x7b' :: (o.inside ++ ['\x7d']) := by
  rw [text_eq] at h
  exact infix_or_of_not_mem h ht

theorem apart_text : Apart o.text := by
  have hfirst : Apart ([] ++ ("module.exports".toList ++ o.beforeEquals.val)) := by
    have hsolid : "module.exports".toList.all (fun x => !isBlank x) = true := by decide
    exact apart_of_solid (by simp) (by simpa using hsolid) o.beforeEquals.2
  have hlast : Apart (o.inside ++ '\x7d' :: []) :=
    o.apart_inside.append (apart_blanks ⟨[], by simp⟩) (by decide) (by decide)
  have hobject : Apart (o.afterEquals.val ++ '\x7b' :: (o.inside ++ ['\x7d'])) :=
    (apart_blanks o.afterEquals).append hlast (by decide) (by decide)
  rw [text_eq]
  exact hfirst.append hobject (by decide) (by decide)

theorem occursIn_es6 : Signature.es6.occursIn o.text = false := by
  rw [Bool.eq_false_iff]
  intro h
  rcases factors_of_es6 h with h | ⟨x, u, hblank, hbrace, hequals, hin⟩
  · exact h o.apart_text
  have hnot : '=' ∉ x :: (u ++ ['\x7b']) := by simpa using hequals
  rcases o.factor_of_not_mem_equals hnot hin with hin | hin
  · -- no brace stands before the equals sign
    have hmem := hin.subset (show '\x7b' ∈ x :: (u ++ ['\x7b']) by simp)
    rcases List.mem_append.mp hmem with hmem | hmem
    · revert hmem; decide
    · exact absurd (o.beforeEquals.2 _ hmem) (by decide)
  · -- after it the brace comes first
    rcases List.infix_cons_iff.mp (infix_of_blank_append o.afterEquals.2 hblank hin) with hpre | hin
    · exact hbrace (List.cons_prefix_cons.mp hpre).1
    · have hmem := hin.subset (show '\x7b' ∈ x :: (u ++ ['\x7b']) by simp)
      simp [o.not_mem_inside (x := '\x7b') (by simp)] at hmem

theorem occursIn_amd : Signature.amd.occursIn o.text = false := by
  rw [Bool.eq_false_iff]
  intro h
  obtain ⟨c, d, hd, hsuffix⟩ := exists_way_of_occursIn h
  have hin : "define.amd".toList <:+: o.text :=
    (mem_ways_word.mp hd).1.isInfix.trans hsuffix.isInfix
  rcases o.factor_of_not_mem_equals (by decide) hin with hin | hin
  · have hfirst := infix_of_append_blank (t := "define.am".toList) (z := 'd') o.beforeEquals.2
      (by decide) hin
    revert hfirst
    decide
  · have hmem := hin.subset (show '.' ∈ "define.amd".toList by decide)
    simp only [List.mem_append, List.mem_cons, o.not_mem_inside (x := '.') (by simp)] at hmem
    rcases hmem with hmem | hmem
    · exact absurd (o.afterEquals.2 _ hmem) (by decide)
    · revert hmem; decide

end ExportsObject

end Statements

section Reading

variable {baseName : String}

theorem ExportsObject.takes_cjs (o : ExportsObject) :
    ∃ d, Signature.cjs.Takes (.start o.text) d ∧ d.after = [] ∧ d.groups = [(1, o.inside)] := by
  have hstart : (Cursor.start o.text).after =
      "module.exports".toList ++ (o.beforeEquals.val ++ '=' ::
      (o.afterEquals.val ++ '\x7b' :: (o.inside ++ '\x7d' :: []))) := rfl
  obtain ⟨c, hword, hc, hgroups⟩ := exists_takes_word hstart
  have hequals := Cursor.after_beyond hc
  have hafter := Cursor.after_beyond (s := ['=']) hequals
  have hbrace := Cursor.after_beyond hafter
  obtain ⟨d, hlist, hd, hcaptured, -⟩ := takes_braceList hbrace (o.not_mem_inside (by simp))
  refine ⟨d, ?_, hd, by rw [hcaptured]; exact congrArg _ hgroups⟩
  have hbefore : blanks.Takes c _ := takes_blanks o.beforeEquals.2 (by simp [isBlank]) hc
  have hbehind : blanks.Takes _ _ := takes_blanks o.afterEquals.2 (by simp [isBlank]) hafter
  exact hword.seq (hbefore.seq ((takes_char hequals).seq (hbehind.seq (Takes.alt_left hlist))))

/-- A property without a value is read as its key. -/
theorem matchStart_property_key {key : List Char} (hkey : IsIdentifier key) :
    ∃ m, Statement.property.matchStart key = some m ∧ m.last.groups = [(1, key)] := by
  have hstart : (Cursor.start key).fresh.after = key ++ [] := (List.append_nil key).symm
  obtain ⟨c, hname, hafter, hgroups⟩ :=
    exists_takes_group 1 (takes_identifier hstart hkey (by simp)) hstart
  have hfinish : c.holds .finish = true := by
    rw [Cursor.holds, hafter]
    rfl
  have hnone : (optional (sequence [blanks, char ':', blanks, .group 2 identifier])).Takes c c :=
    takes_optional_of_end (advances_seq_right (advances_seq_left (advances_set _))) hafter
  have htakes : Statement.property.Takes (Cursor.start key).fresh c :=
    (takes_anchor rfl).seq (hname.seq (hnone.seq (takes_anchor hfinish)))
  exact ⟨_, htakes.matchAt, hgroups⟩

/-- A property with a value is read as its key and its value. -/
theorem matchStart_property_value {key value : List Char} (b b' : Blanks) (hkey : IsIdentifier key)
    (hvalue : IsIdentifier value) :
    ∃ m, Statement.property.matchStart (key ++ (b.val ++ ':' :: (b'.val ++ value))) = some m ∧
      m.last.groups = [(2, value), (1, key)] := by
  generalize htext : key ++ (b.val ++ ':' :: (b'.val ++ value)) = text
  have hstart : (Cursor.start text).fresh.after = key ++ (b.val ++ ':' :: (b'.val ++ value)) :=
    htext.symm
  have hstop : ∀ x ∈ (b.val ++ ':' :: (b'.val ++ value)).head?, isIdent x = false := by
    intro x hx
    cases hb : b.val with
    | nil =>
        obtain rfl : ':' = x := by simpa [hb] using hx
        decide
    | cons y rest =>
        obtain rfl : y = x := by simpa [hb] using hx
        exact isIdent_of_isBlank (b.2 y (by simp [hb]))
  obtain ⟨c, hname, hafter, hgroups⟩ :=
    exists_takes_group 1 (takes_identifier hstart hkey hstop) hstart
  have hcolon := Cursor.after_beyond hafter
  have hgap := Cursor.after_beyond (s := [':']) hcolon
  have hend := Cursor.after_beyond hgap
  rw [← List.append_nil value] at hend
  obtain ⟨d, hsecond, hd, hcaptured⟩ :=
    exists_takes_group 2 (takes_identifier hend hvalue (by simp)) hend
  have hbefore : blanks.Takes c _ := takes_blanks b.2 (by simp [isBlank]) hafter
  have hbehind : blanks.Takes _ _ :=
    takes_blanks b'.2 (fun x hx => hvalue.isSolid.2 x (List.mem_of_mem_head? hx)) hgap
  have hfinish : d.holds .finish = true := by
    rw [Cursor.holds, hd]
    rfl
  have hoptional :
      (optional (sequence [blanks, char ':', blanks, .group 2 identifier])).Takes c d :=
    Takes.optional (hbefore.seq ((takes_char hcolon).seq (hbehind.seq hsecond)))
  have htakes : Statement.property.Takes (Cursor.start text).fresh d :=
    (takes_anchor rfl).seq (hname.seq (hoptional.seq (takes_anchor hfinish)))
  exact ⟨_, htakes.matchAt, hcaptured.trans (congrArg _ hgroups)⟩

namespace Export

theorem value_ofProperty_blank (b : Blanks) : (ofProperty baseName b.val).value = [] := by
  simp [ofProperty, trim_of_isBlank b.2]

/-- A property is read as the export that it declares, whatever blanks stand around its parts. -/
theorem value_ofProperty (b : Blanks) (p : Property) :
    (ofProperty baseName (b.val ++ p.written)).value = [p.exported] := by
  obtain ⟨key, value⟩ := p
  have hkey := key.isIdentifier
  have hblank := isBlank_append b key.before
  cases value with
  | none =>
      have htrim : trim (b.val ++ Property.written ⟨key, none⟩) = key.name.toList := by
        rw [Property.written, Padded.written, ← List.append_assoc]
        exact trim_append hblank key.after.2
          (fun x hx => hkey.isSolid.2 x (List.mem_of_mem_head? hx))
          (fun x hx => hkey.isSolid.2 x (List.mem_of_getLast? hx))
      obtain ⟨m, hm, hgroups⟩ := matchStart_property_key hkey
      have hfirst : m.group 1 = key.name.toList := Match.group_eq_lookup hgroups 0
      have hsecond : m.group? 2 = none := Match.group?_eq_lookup hgroups 1
      simp only [ofProperty, htrim, hm, hfirst, hsecond]
      rw [if_neg (by simpa using hkey.1)]
      simp [Property.exported]
  | some value =>
      have hvalue := value.isIdentifier
      have htrim : trim (b.val ++ Property.written ⟨key, some value⟩) =
          key.name.toList ++ (key.after.val ++ ':' :: (value.before.val ++ value.name.toList)) := by
        have hwritten : b.val ++ Property.written ⟨key, some value⟩ = (b.val ++ key.before.val) ++
            ((key.name.toList ++
              (key.after.val ++ ':' :: (value.before.val ++ value.name.toList))) ++
              value.after.val) := by
          simp [Property.written, Padded.written]
        rw [hwritten]
        refine trim_append hblank value.after.2 (fun x hx => ?_) (fun x hx => ?_)
        · rw [List.head?_append_of_ne_nil _ hkey.1] at hx
          exact hkey.isSolid.2 x (List.mem_of_mem_head? hx)
        · rw [← List.cons_append, ← List.append_assoc, ← List.append_assoc,
            List.getLast?_append_of_ne_nil _ hvalue.1] at hx
          exact hvalue.isSolid.2 x (List.mem_of_getLast? hx)
      obtain ⟨m, hm, hgroups⟩ := matchStart_property_value key.after value.before hkey hvalue
      have hfirst : m.group 1 = key.name.toList := Match.group_eq_lookup hgroups 0
      have hsecond : m.group? 2 = some value.name.toList := Match.group?_eq_lookup hgroups 1
      simp only [ofProperty, htrim, hm, hfirst, hsecond]
      rw [if_neg (by simp)]
      by_cases hsame : value.name = key.name
      · simp [Property.exported, hsame]
      · simp [Property.exported, hsame, String.toList_inj]

/-- The exports that are read off the text between the braces. -/
def propertyExports (baseName : String) (inside : List Char) : List Export :=
  (splitOn ',' inside).flatMap fun item => (ofProperty baseName item).value

theorem propertyExports_append (baseName : String) (s t : List Char) :
    propertyExports baseName (s ++ ',' :: t) =
      propertyExports baseName s ++ propertyExports baseName t := by
  rw [propertyExports, splitOn_append, List.flatMap_append]
  rfl

theorem propertyExports_of_inProperty {s : List Char} (hs : ∀ x ∈ s, InProperty x) :
    propertyExports baseName s = (ofProperty baseName s).value := by
  have hcomma : ',' ∉ s := fun hmem => absurd (hs _ hmem) (by decide)
  rw [propertyExports, splitOn_of_not_mem hcomma, List.flatMap_singleton]

/-- The properties are read in order. -/
theorem propertyExports_inside (baseName : String) (o : ExportsObject) :
    propertyExports baseName o.inside = o.properties.map Property.exported := by
  refine ExportsObject.inside_induction
    (P := fun s ps => propertyExports baseName s = ps.map Property.exported)
    (fun b => ?_) (fun b p => ?_) (fun hs ht => ?_) o
  · rw [propertyExports_of_inProperty fun x hx => .inl (b.2 x hx), value_ofProperty_blank,
      List.map_nil]
  · rw [propertyExports_of_inProperty (p.inProperty_written b), value_ofProperty,
      List.map_singleton]
  · rw [propertyExports_append, hs, ht, List.map_append]

theorem value_ofAssignment (baseName : String) (o : ExportsObject) :
    (ofAssignment baseName o.text).value = o.properties.map Property.exported := by
  obtain ⟨d, htakes, -, hgroups⟩ := o.takes_cjs
  have hfirst : Match.group ⟨.start o.text, d⟩ 1 = o.inside :=
    Match.group_eq_lookup (m := ⟨.start o.text, d⟩) hgroups 0
  have hsecond : Match.group? ⟨.start o.text, d⟩ 2 = none :=
    Match.group?_eq_lookup (m := ⟨.start o.text, d⟩) hgroups 1
  rw [← propertyExports_inside baseName o]
  simp only [ofAssignment, search_of_takes htakes, hfirst, hsecond]
  simp [propertyExports, List.flatMap_def]

end Export

theorem ExportsObject.classify_text (namespaceName : String) (o : ExportsObject) :
    classify namespaceName (String.ofList o.text) = ⟨.cjs, [String.ofList o.text]⟩ := by
  obtain ⟨d, htakes, hafter, -⟩ := o.takes_cjs
  have hadvances : Signature.cjs.Advances := advances_seq_left (advances_word (by decide))
  have hfound := groupTexts_of_takes hadvances htakes hafter
  simp [classify, Dialect.all, recognize, Classification.ofOccurrence, Classification.ofFound,
    occursIn_es6, occursIn_amd, hfound]

/-- A module that assigns an object to its exports is known by it, whatever the namespace is called.
Its exports are the properties of the object, each once and in order, or its base name if there are
none. -/
theorem resolveExports_object (namespaceName baseName : String) (o : ExportsObject) :
    (classify namespaceName (String.ofList o.text)).dialect = .cjs ∧
      (resolveExports namespaceName baseName none (classify namespaceName (String.ofList o.text))
        (String.ofList o.text)).value =
        if o.properties.isEmpty then [.plain baseName]
          else unique (o.properties.map Property.exported) := by
  rw [o.classify_text]
  refine ⟨rfl, ?_⟩
  have hextract :
      (Export.extract namespaceName baseName ⟨.cjs, [String.ofList o.text]⟩
        (String.ofList o.text)).value =
      o.properties.map Property.exported := by
    simp [Export.extract, Export.value_ofAssignment]
  simp only [resolveExports, Option.bind_none, Noted.value_bind, hextract]
  cases hempty : o.properties.isEmpty with
  | true => simp [hempty, unique]
  | false => simp [hempty]

/-- An identifier between single blanks. -/
def spaced (name : String) (h : IsIdentifier name.toList) : Padded where
  before := ⟨" ".toList, List.all_eq_true.mp (by decide)⟩
  name := name
  after := ⟨" ".toList, List.all_eq_true.mp (by decide)⟩
  isIdentifier := h

/-- An object with keywords as keys, one of them twice, and with a trailing comma. -/
def keywordObject : ExportsObject where
  beforeEquals := ⟨"\t".toList, List.all_eq_true.mp (by decide)⟩
  afterEquals := ⟨"\n".toList, List.all_eq_true.mp (by decide)⟩
  opening := ⟨"\n\t".toList, List.all_eq_true.mp (by decide)⟩
  properties := [
    { key := spaced "import" (by decide), value := none },
    { key := spaced "from" (by decide), value := some (spaced "load" (by decide)) },
    { key := spaced "import" (by decide), value := some (spaced "import" (by decide)) }]
  trailing := some ⟨"\n".toList, List.all_eq_true.mp (by decide)⟩

theorem resolveExports_object_keywords :
    let text := "module.exports\t=\n\x7b\n\t import , from : load , import : import ,\n\x7d"
    String.ofList keywordObject.text = text ∧ (classify "NS" text).dialect = .cjs ∧
      (resolveExports "NS" "f" none (classify "NS" text) text).value =
        [.plain "import", .entry "load" .asName "from"] := by
  have htext : String.ofList keywordObject.text =
      "module.exports\t=\n\x7b\n\t import , from : load , import : import ,\n\x7d" := by
    decide
  have hexports := resolveExports_object "NS" "f" keywordObject
  rw [htext] at hexports
  exact ⟨htext, hexports.1, hexports.2.trans (by decide)⟩

end Reading

end ScriptModules
