import ScriptModules.Proofs.Options.FieldChecks
import ScriptModules.Proofs.Options.Loading
import Mathlib.Logic.Function.Basic

/-!
# Settings in the place of entries

A setting from elsewhere takes the place of the entry of its field and of no other, so options are
loaded with the given settings and otherwise as they are in the file. The global namespace is the
exception among the fields that can be set: it has two keys. A setting under the key that the file
does not use does not take the place of the entry in the file. It stands beside it, and the options
are refused for having one key too many. All this holds for every library that checks options field
by field.
-/

namespace ScriptModules

namespace OptionField

/-- The keys of a field. -/
def keys (f : OptionField) : List String := f.field.key :: f.field.other.toList

/-- The fields that can be set. -/
def settable : List OptionField := [inputs, output, banner, name]

/-- No key belongs to two fields. -/
theorem eq_of_mem_keys {f g : OptionField} {key : String} (hf : key ∈ f.keys) (hg : key ∈ g.keys) :
    f = g := by
  have hall : ∀ f ∈ all, ∀ g ∈ all, ∀ key ∈ f.keys, key ∈ g.keys → f = g := by decide
  exact hall f f.mem_all g g.mem_all key hf hg

theorem mem_keys {f : OptionField} {key : String} :
    key ∈ f.keys ↔ f.field.key = key ∨ f.field.other = some key := by
  simp [keys, eq_comm]

/-- Only the global namespace has a second key among the fields that can be set. -/
theorem other_of_settable {f : OptionField} (hf : f ∈ settable) {key : String}
    (h : f.field.other = some key) : f = name ∧ key = "global_name" := by
  have hall : ∀ f ∈ settable, f.field.other = none ∨ f = name := by decide
  rcases hall f hf with hnone | rfl
  · rw [hnone] at h
    cases h
  · exact ⟨rfl, (Option.some.inj h).symm⟩

end OptionField

namespace Library

variable {V C : Type} {L : Library V C} {pairs : List (V × V)} {f : OptionField} {key k : String}
  {v w : V}

theorem isSome_entry?_iff :
    (L.entry? key pairs).isSome = true ↔ ∃ pair ∈ pairs, L.text? pair.1 = some key :=
  Entries.isSome_find?_iff

/-- What a field finds stands under its key, or under its other key while nothing stands under the
first. -/
theorem find?_eq_some : L.find? f pairs = some (k, w) ↔
    f.field.key = k ∧ L.entry? k pairs = some w ∨
      L.entry? f.field.key pairs = none ∧ f.field.other = some k ∧ L.entry? k pairs = some w := by
  rw [find?]
  cases hentry : L.entry? f.field.key pairs with
  | some u =>
      constructor
      · intro h
        obtain ⟨rfl, rfl⟩ := Prod.mk.inj (Option.some.inj h)
        exact .inl ⟨rfl, hentry⟩
      · rintro (⟨rfl, h⟩ | ⟨h, -⟩)
        · rw [Option.some.inj (hentry.symm.trans h)]
        · cases h
  | none =>
      rw [Option.bind_eq_some_iff]
      constructor
      · rintro ⟨k', hother, h⟩
        obtain ⟨w', hw, h⟩ := Option.map_eq_some_iff.mp h
        obtain ⟨rfl, rfl⟩ := Prod.mk.inj h
        exact .inr ⟨rfl, hother, hw⟩
      · rintro (⟨rfl, h⟩ | ⟨-, hother, hw⟩)
        · rw [hentry] at h
          cases h
        · exact ⟨k, hother, Option.map_eq_some_iff.mpr ⟨w, hw, rfl⟩⟩

/-- What a field finds after an entry was put under a key: the entry if the key is its own, or its
other one while nothing stands under the first. -/
theorem find?_setEntry (f : OptionField) (key : String) (v : V) (pairs : List (V × V)) :
    L.find? f (L.setEntry key v pairs) =
      if f.field.key = key ∨ f.field.other = some key ∧ L.entry? f.field.key pairs = none then
        some (key, v)
      else L.find? f pairs := by
  rw [find?, find?, entry?_setEntry]
  by_cases hkey : f.field.key = key
  · simp [hkey]
  · rw [if_neg hkey]
    cases L.entry? f.field.key pairs with
    | some w => simp [hkey]
    | none =>
        cases hother : f.field.other with
        | none => simp [hkey]
        | some k =>
            by_cases hk : k = key
            · simp [hk, entry?_setEntry]
            · simp [hk, hkey, entry?_setEntry]

theorem find?_setEntry_of_notMem (h : key ∉ f.keys) :
    L.find? f (L.setEntry key v pairs) = L.find? f pairs := by
  rw [OptionField.mem_keys, not_or] at h
  rw [find?_setEntry, if_neg]
  rintro (hkey | ⟨hother, -⟩)
  · exact h.1 hkey
  · exact h.2 hother

/-- A field that was found under a key is found under it again, unless the entry takes its first
key. -/
theorem exists_find?_setEntry (h : L.find? f pairs = some (k, w))
    (hkey : f.field.key = key → f.field.key = k) :
    ∃ u, L.find? f (L.setEntry key v pairs) = some (k, u) := by
  rw [find?_setEntry]
  split
  · rename_i hput
    rcases hput with rfl | ⟨hother, hnone⟩
    · exact ⟨v, by rw [hkey rfl]⟩
    · rcases find?_eq_some.mp h with ⟨rfl, hentry⟩ | ⟨-, hother', -⟩
      · rw [hnone] at hentry
        cases hentry
      · exact ⟨v, by rw [Option.some.inj (hother.symm.trans hother')]⟩
  · exact ⟨w, h⟩

/-- The other key of the global namespace is used exactly if the first is not there. -/
theorem uses_other_iff : L.Uses pairs "global_name" ↔
    L.entry? "global" pairs = none ∧ (L.entry? "global_name" pairs).isSome = true := by
  constructor
  · rintro ⟨f, w, hfind⟩
    have hname : "global_name" ∈ f.keys := by
      rcases find?_eq_some.mp hfind with ⟨hkey, -⟩ | ⟨-, hother, -⟩
      · exact OptionField.mem_keys.mpr (.inl hkey)
      · exact OptionField.mem_keys.mpr (.inr hother)
    obtain rfl : f = .name := OptionField.eq_of_mem_keys hname (by decide)
    obtain ⟨hnone, -, hentry⟩ :=
      (find?_eq_some.mp hfind).resolve_left fun hfound => absurd hfound.1 (by decide)
    exact ⟨hnone, by rw [hentry]; rfl⟩
  · rintro ⟨hnone, hsome⟩
    obtain ⟨w, hw⟩ := Option.isSome_iff_exists.mp hsome
    exact ⟨.name, w, find?_eq_some.mpr (.inr ⟨hnone, rfl, hw⟩)⟩

/-- Every key is one under which a field is found, or the other key of the global namespace. -/
def Knows (L : Library V C) (pairs : List (V × V)) : Prop :=
  ∀ pair ∈ pairs, ∃ key, L.text? pair.1 = some key ∧ (L.Uses pairs key ∨ key = "global_name")

theorem UsesAll.uses (h : L.UsesAll pairs) (hentry : (L.entry? key pairs).isSome = true) :
    L.Uses pairs key := by
  obtain ⟨pair, hpair, hkey⟩ := isSome_entry?_iff.mp hentry
  obtain ⟨key', hkey', hused⟩ := h pair hpair
  rwa [Option.some.inj (hkey.symm.trans hkey')]

theorem Knows.uses_or_eq (h : L.Knows pairs) (hentry : (L.entry? key pairs).isSome = true) :
    L.Uses pairs key ∨ key = "global_name" := by
  obtain ⟨pair, hpair, hkey⟩ := isSome_entry?_iff.mp hentry
  obtain ⟨key', hkey', hused⟩ := h pair hpair
  rwa [Option.some.inj (hkey.symm.trans hkey')]

theorem UsesAll.knows (h : L.UsesAll pairs) : L.Knows pairs := by
  intro pair hpair
  obtain ⟨key, hkey, hused⟩ := h pair hpair
  exact ⟨key, hkey, .inl hused⟩

theorem Knows.setEntry (h : L.Knows pairs) (hf : f ∈ OptionField.settable) (hkey : key ∈ f.keys) :
    L.Knows (L.setEntry key v pairs) := by
  intro pair hpair
  rcases Entries.mem_put (L.text?_ofText key) hpair with hnew | hold
  · refine ⟨key, hnew, ?_⟩
    rcases OptionField.mem_keys.mp hkey with hfirst | hother
    · exact .inl ⟨f, v, by rw [find?_setEntry, if_pos (.inl hfirst)]⟩
    · exact .inr (OptionField.other_of_settable hf hother).2
  · obtain ⟨k, hk, ⟨g, w, hfind⟩ | hother⟩ := h pair hold
    · refine ⟨k, hk, ?_⟩
      by_cases hfirst : g.field.key = key → g.field.key = k
      · obtain ⟨u, hu⟩ := exists_find?_setEntry (v := v) hfind hfirst
        exact .inl ⟨g, u, hu⟩
      · -- the entry takes the first key of the field, which was found under its other one
        obtain ⟨hown, hne⟩ := Classical.not_imp.mp hfirst
        obtain rfl := OptionField.eq_of_mem_keys hkey (OptionField.mem_keys.mpr (.inl hown))
        obtain ⟨-, hk', -⟩ := (find?_eq_some.mp hfind).resolve_left fun hfound => hne hfound.1
        exact .inr (OptionField.other_of_settable hf hk').2
    · exact ⟨k, hk, .inr hother⟩

section Overriding

variable {settings : Settings V}

theorem override_cons_none (L : Library V C) (key : String) (settings : Settings V)
    (pairs : List (V × V)) :
    L.override ((key, none) :: settings) pairs = L.override settings pairs :=
  rfl

theorem override_cons_some (L : Library V C) (key : String) (v : V) (settings : Settings V)
    (pairs : List (V × V)) :
    L.override ((key, some v) :: settings) pairs = L.override settings (L.setEntry key v pairs) :=
  rfl

/-- There is an entry under a key if there was one, or a setting gives one. -/
theorem isSome_entry?_override : (L.entry? key (L.override settings pairs)).isSome = true ↔
    (L.entry? key pairs).isSome = true ∨ ∃ v, (key, some v) ∈ settings := by
  induction settings generalizing pairs with
  | nil => simp [override]
  | cons setting settings ih =>
      obtain ⟨k, v⟩ := setting
      cases v with
      | none =>
          rw [override_cons_none, ih]
          simp
      | some w =>
          rw [override_cons_some, ih, entry?_setEntry]
          by_cases hk : key = k
          · subst hk
            exact iff_of_true (.inl (by simp)) (.inr ⟨w, List.mem_cons_self⟩)
          · simp [hk]

/-- A setting gives the global namespace under a key that the file does not use for it. -/
def Respells (L : Library V C) (pairs : List (V × V)) (settings : Settings V) : Prop :=
  ∃ key v, (key, some v) ∈ settings ∧ key ∈ OptionField.name.keys ∧ L.entry? key pairs = none

end Overriding

end Library

namespace FieldChecks

open Library

variable {V C : Type} {L : Library V C} (checks : FieldChecks L)

/-- The options with another content of one field. -/
def put (c : C) (f : OptionField) (a : checks.Holds f) : C :=
  checks.make (Function.update (fun g => checks.get g c) f a)

/-- A setting that is valid for its field, with the options before and after the field is replaced
by what it makes of the value. A setting without a value changes nothing. -/
inductive Replaces : String × Option V → C → C → Prop where
  | nothing (key : String) (c : C) : Replaces (key, none) c c
  | field {f : OptionField} {key : String} {v : V} {a : checks.Holds f} (c : C) :
      f ∈ OptionField.settable → key ∈ f.keys → checks.check f (some v) = some a →
      Replaces (key, some v) c (checks.put c f a)

/-- Settings that are valid for their fields, with the options before and after all of them are
replaced. -/
inductive ReplacesAll : Settings V → C → C → Prop where
  | nil (c : C) : ReplacesAll [] c c
  | cons {setting : String × Option V} {settings : Settings V} {c c' c'' : C} :
      checks.Replaces setting c c' → ReplacesAll settings c' c'' →
      ReplacesAll (setting :: settings) c c''

/-- The fields in the entries give the options, whatever other keys there are. -/
def Gives (pairs : List (V × V)) (c : C) : Prop :=
  ∀ f, checks.check f ((L.find? f pairs).map (·.2)) = some (checks.get f c)

variable {checks} {pairs : List (V × V)} {settings : Settings V} {c c' a b : C} {f : OptionField}
  {key : String} {v : V}

theorem validate_eq_ok (checks : FieldChecks L) :
    L.validate pairs = .ok c ↔ checks.Gives pairs c ∧ L.UsesAll pairs :=
  checks.accepts pairs c

theorem get_put_self (x : checks.Holds f) : checks.get f (checks.put c f x) = x := by
  rw [put, checks.get_make, Function.update_self]

theorem get_put_of_ne {g : OptionField} (x : checks.Holds f) (hne : g ≠ f) :
    checks.get g (checks.put c f x) = checks.get g c := by
  rw [put, checks.get_make, Function.update_of_ne hne]

/-- A setting replaces what its field gives, and no other field. -/
theorem Gives.setEntry {x : checks.Holds f} (h : checks.Gives pairs c) (hkey : key ∈ f.keys)
    (hvalid : checks.check f (some v) = some x)
    (hshown : f.field.key = key ∨ L.entry? f.field.key pairs = none) :
    checks.Gives (L.setEntry key v pairs) (checks.put c f x) := by
  intro g
  by_cases hg : g = f
  · subst hg
    have hfind : L.find? g (L.setEntry key v pairs) = some (key, v) := by
      rw [find?_setEntry, if_pos]
      rcases hshown with hfirst | hnone
      · exact .inl hfirst
      · exact (OptionField.mem_keys.mp hkey).imp_right fun hother => ⟨hother, hnone⟩
    rw [hfind, get_put_self]
    exact hvalid
  · have hother : key ∉ g.keys := fun hmem => hg (OptionField.eq_of_mem_keys hmem hkey)
    rw [find?_setEntry_of_notMem hother, get_put_of_ne x hg]
    exact h g

/-- An entry under the other key of a field does not count while there is one under the first. -/
theorem Gives.setEntry_hidden (h : checks.Gives pairs c) (hkey : key ∈ f.keys)
    (hne : f.field.key ≠ key) (hentry : L.entry? f.field.key pairs ≠ none) :
    checks.Gives (L.setEntry key v pairs) c := by
  intro g
  have hfind : L.find? g (L.setEntry key v pairs) = L.find? g pairs := by
    rw [find?_setEntry, if_neg]
    rintro (hown | ⟨hother, hnone⟩)
    · obtain rfl := OptionField.eq_of_mem_keys hkey (OptionField.mem_keys.mpr (.inl hown))
      exact hne hown
    · obtain rfl := OptionField.eq_of_mem_keys hkey (OptionField.mem_keys.mpr (.inr hother))
      exact hentry hnone
  rw [hfind]
  exact h g

/-- A setting in the first key of its field, or in the other one while nothing stands under the
first. -/
theorem shown_or_hidden (hf : f ∈ OptionField.settable) (hkey : key ∈ f.keys) :
    (f.field.key = key ∨ L.entry? f.field.key pairs = none) ∨
      key = "global_name" ∧ f.field.key ≠ key ∧ (L.entry? "global" pairs).isSome = true := by
  by_cases hown : f.field.key = key
  · exact .inl (.inl hown)
  · have hother := (OptionField.mem_keys.mp hkey).resolve_left hown
    obtain ⟨rfl, rfl⟩ := OptionField.other_of_settable hf hother
    cases hentry : L.entry? OptionField.name.field.key pairs with
    | none => exact .inl (.inr rfl)
    | some w => exact .inr ⟨rfl, hown, Option.isSome_of_eq_some hentry⟩

/-- Settings replace what their fields give, and no other field, if no entry hides one of them. -/
theorem Gives.override (h : checks.Gives pairs c) (hall : checks.ReplacesAll settings c c')
    (hname : ∀ v, ("global_name", some v) ∈ settings →
      L.entry? "global" (L.override settings pairs) = none) :
    checks.Gives (L.override settings pairs) c' := by
  induction hall generalizing pairs with
  | nil c => exact h
  | @cons setting settings c c' c'' hreplaces _ ih =>
      cases hreplaces with
      | nothing key c => exact ih h fun w hw => hname w (List.mem_cons_of_mem _ hw)
      | @field f key v x c hf hkey hvalid =>
          rw [override_cons_some] at hname ⊢
          refine ih (h.setEntry hkey hvalid ?_) fun w hw => hname w (List.mem_cons_of_mem _ hw)
          rcases shown_or_hidden hf hkey with hshown | ⟨rfl, hne, hsome⟩
          · exact hshown
          · -- what hides the entry would still be there in the end
            have hkept : (L.entry? "global" (L.setEntry "global_name" v pairs)).isSome = true := by
              rw [entry?_setEntry, if_neg (by decide)]
              exact hsome
            have hlast : (L.entry? "global"
                (L.override settings (L.setEntry "global_name" v pairs))).isSome = true :=
              isSome_entry?_override.mpr (.inl hkept)
            rw [hname v List.mem_cons_self] at hlast
            cases hlast

/-- Whatever settings are put in the place of entries, all fields give something. -/
theorem Gives.exists_override (h : checks.Gives pairs c) (hall : checks.ReplacesAll settings a b) :
    ∃ c', checks.Gives (L.override settings pairs) c' := by
  induction hall generalizing pairs c with
  | nil => exact ⟨c, h⟩
  | cons hreplaces _ ih =>
      cases hreplaces with
      | nothing key => exact ih h
      | @field f key v x _ hf hkey hvalid =>
          rw [override_cons_some]
          rcases shown_or_hidden hf hkey with hshown | ⟨rfl, hne, hsome⟩
          · exact ih (h.setEntry hkey hvalid hshown)
          · obtain rfl := OptionField.eq_of_mem_keys hkey (by decide : _ ∈ OptionField.name.keys)
            refine ih (h.setEntry_hidden hkey hne ?_)
            exact Option.isSome_iff_ne_none.mp hsome

theorem knows_override (h : L.Knows pairs) (hall : checks.ReplacesAll settings a b) :
    L.Knows (L.override settings pairs) := by
  induction hall generalizing pairs with
  | nil => exact h
  | cons hreplaces _ ih =>
      cases hreplaces with
      | nothing => exact ih h
      | field _ hf hkey _ => exact ih (h.setEntry hf hkey)

/-- Options that are accepted have one entry for the global namespace. -/
theorem entry?_name_of_accepts (hgives : checks.Gives pairs c) (hall : L.UsesAll pairs) :
    (L.entry? "global" pairs).isSome = true ∧ L.entry? "global_name" pairs = none ∨
      L.entry? "global" pairs = none ∧ (L.entry? "global_name" pairs).isSome = true := by
  cases hother : L.entry? "global_name" pairs with
  | some w =>
      have hused := hall.uses (Option.isSome_of_eq_some hother)
      exact .inr ⟨(uses_other_iff.mp hused).1, rfl⟩
  | none =>
      refine .inl ⟨?_, rfl⟩
      cases hentry : L.entry? "global" pairs with
      | some w => rfl
      | none =>
          have hname := hgives .name
          have hfind : L.find? .name pairs = none := by
            rw [find?, show L.entry? OptionField.name.field.key pairs = none from hentry]
            simp [OptionField.field, Options.namespaceField, hother]
          rw [hfind, Option.map_none, checks.name_required] at hname
          cases hname

/-- Entries for both keys of the global namespace are refused for the second one. -/
theorem validate_both (checks : FieldChecks L) (hgives : checks.Gives pairs c)
    (hknown : L.Knows pairs) (hfirst : (L.entry? "global" pairs).isSome = true)
    (hsecond : (L.entry? "global_name" pairs).isSome = true) :
    ∃ e, L.validate pairs = .error e ∧ e.kind = .refusal ∧ e.issues ≠ [] ∧
      ∀ i ∈ e.issues, i = ⟨[.text "global_name"], .unknownKey⟩ := by
  have hunused : ¬L.Uses pairs "global_name" := by
    intro hused
    simp [(uses_other_iff.mp hused).1] at hfirst
  have hfields : ∀ f, (checks.check f ((L.find? f pairs).map (·.2))).isSome = true := by
    intro f
    rw [hgives f]
    rfl
  have htexts : ∀ pair ∈ pairs, (L.text? pair.1).isSome = true := by
    intro pair hpair
    obtain ⟨key, hkey, -⟩ := hknown pair hpair
    exact Option.isSome_of_eq_some hkey
  obtain ⟨e, he, hkind, hne, hissues⟩ :=
    checks.refuses pairs hfields htexts fun hall => hunused (hall.uses hsecond)
  refine ⟨e, he, hkind, hne, fun i hi => ?_⟩
  obtain ⟨key, hentry, hleft, rfl⟩ := hissues i hi
  rw [(hknown.uses_or_eq hentry).resolve_left hleft]

/-- Settings are accepted in the place of entries unless the global namespace is given under both of
its keys. -/
theorem validate_override (checks : FieldChecks L) (h : L.validate pairs = .ok c)
    (hall : checks.ReplacesAll settings c c') :
    (¬L.Respells pairs settings → L.validate (L.override settings pairs) = .ok c') ∧
      (L.Respells pairs settings → ∃ e, L.validate (L.override settings pairs) = .error e ∧
        e.kind = .refusal ∧ e.issues ≠ [] ∧
          ∀ i ∈ e.issues, i = ⟨[.text "global_name"], .unknownKey⟩) := by
  obtain ⟨hgives, hkeys⟩ := checks.validate_eq_ok.mp h
  have hknown := knows_override hkeys.knows hall
  have hspelling := entry?_name_of_accepts hgives hkeys
  constructor
  · intro hsame
    have hkept {key : String} (hkey : key ∈ OptionField.name.keys)
        (hnone : L.entry? key pairs = none) : L.entry? key (L.override settings pairs) = none := by
      rw [← Option.not_isSome_iff_eq_none, isSome_entry?_override]
      rintro (hsome | ⟨v, hmem⟩)
      · simp [hnone] at hsome
      · exact hsame ⟨key, v, hmem, hkey, hnone⟩
    refine checks.validate_eq_ok.mpr ⟨hgives.override hall fun v hmem => ?_, fun pair hpair => ?_⟩
    · rcases hspelling with ⟨-, hnone⟩ | ⟨hnone, -⟩
      · exact absurd ⟨"global_name", v, hmem, by decide, hnone⟩ hsame
      · exact hkept (by decide) hnone
    · obtain ⟨key, hkey, hused | rfl⟩ := hknown pair hpair
      · exact ⟨key, hkey, hused⟩
      · have hentry := isSome_entry?_iff.mpr ⟨pair, hpair, hkey⟩
        rcases hspelling with ⟨-, hnone⟩ | ⟨hnone, -⟩
        · rw [hkept (by decide) hnone] at hentry
          cases hentry
        · exact ⟨_, hkey, uses_other_iff.mpr ⟨hkept (by decide) hnone, hentry⟩⟩
  · rintro ⟨key, v, hmem, hkey, hnone⟩
    have hgiven : (L.entry? key (L.override settings pairs)).isSome = true :=
      isSome_entry?_override.mpr (.inr ⟨v, hmem⟩)
    have hspelled : key = "global" ∨ key = "global_name" := by
      simpa [OptionField.keys, OptionField.field, Options.namespaceField] using hkey
    have hboth : (L.entry? "global" (L.override settings pairs)).isSome = true ∧
        (L.entry? "global_name" (L.override settings pairs)).isSome = true := by
      rcases hspelling with ⟨hsome, -⟩ | ⟨-, hsome⟩
      · refine ⟨isSome_entry?_override.mpr (.inl hsome), ?_⟩
        rcases hspelled with rfl | rfl
        · simp [hnone] at hsome
        · exact hgiven
      · refine ⟨?_, isSome_entry?_override.mpr (.inl hsome)⟩
        rcases hspelled with rfl | rfl
        · exact hgiven
        · simp [hnone] at hsome
    obtain ⟨c'', hgives'⟩ := hgives.exists_override hall
    exact validate_both checks hgives' hknown hboth.1 hboth.2

end FieldChecks

namespace Library

variable {V C : Type} {L : Library V C} {t : FileTree} {cwd path : String} {pairs : List (V × V)}
  {settings : Settings V} {c c' : C}

theorem entry?_resolveEntries {dir : List String} {resolved : List (V × V)}
    (h : L.resolveEntries t dir pairs = .ok resolved) {key : String}
    (hkey : key ≠ "inputs" ∧ key ≠ "output") : L.entry? key resolved = L.entry? key pairs := by
  obtain ⟨changed, hchanged, h⟩ := bind_eq_ok.mp h
  rw [entry?_modifyEntry h hkey.2, entry?_modifyEntry hchanged hkey.1]

/-- For a library that checks options field by field, let a file give options without settings from
elsewhere. With settings that are valid for their fields it gives the same options with the fields
replaced that the settings name, unless one of them gives the global namespace under a key that the
file does not use. Then the options are refused, and all that is said against them is that the other
key of the namespace belongs to no field. -/
theorem load_replaced (L : Library V C) (checks : FieldChecks L)
    (hpairs : L.readEntries t cwd (Path.tidy path) = .ok pairs)
    (h : (L.load t cwd path []).value = .ok c) (hall : checks.ReplacesAll settings c c') :
    (¬L.Respells pairs settings → (L.load t cwd path settings).value = .ok c') ∧
      (L.Respells pairs settings → ∃ e, (L.load t cwd path settings).value = .error (.raised e) ∧
        e.kind = .refusal ∧ e.issues ≠ [] ∧
          ∀ i ∈ e.issues, i = ⟨[.text "global_name"], .unknownKey⟩) := by
  rw [value_load] at h ⊢
  obtain ⟨gathered, hgathered, h⟩ := bind_eq_ok.mp h
  obtain ⟨pairs', hpairs', resolved, hresolved, rfl⟩ := gather_eq_ok.mp hgathered
  obtain rfl := Except.ok.inj (hpairs.symm.trans hpairs')
  have hentries {key : String} (hkey : key ∈ OptionField.name.keys) :
      L.entry? key resolved = L.entry? key pairs := by
    have hothers : ∀ key ∈ OptionField.name.keys, key ≠ "inputs" ∧ key ≠ "output" := by decide
    exact entry?_resolveEntries hresolved (hothers key hkey)
  have hrespells : L.Respells resolved settings ↔ L.Respells pairs settings := by
    refine exists₂_congr fun key v => and_congr_right' (and_congr_right fun hkey => ?_)
    rw [hentries hkey]
  obtain ⟨haccepted, hrefused⟩ := checks.validate_override (mapError_eq_ok.mp h) hall
  rw [override, List.foldl_nil, hrespells] at haccepted hrefused
  have hgather : L.gather t cwd path settings = .ok (L.override settings resolved) :=
    gather_eq_ok.mpr ⟨pairs, hpairs, resolved, hresolved, rfl⟩
  rw [hgather]
  constructor
  · intro hsame
    exact mapError_eq_ok.mpr (haccepted hsame)
  · intro hother
    obtain ⟨e, he, hissues⟩ := hrefused hother
    exact ⟨e, mapError_eq_error.mpr ⟨e, he, rfl⟩, hissues⟩

/-- A file that gives the global namespace under its other key. -/
def namedFile : FileTree where
  entries := [(["work"], .directory),
    (["work", "c.yaml"], .file (Text.encodeUtf8
      "inputs: [a]\noutput: o\nglobal_name: G\nexcludes: x\n".toList))]

/-- Settings of which one gives nothing. -/
def namedSettings : Settings Value :=
  [("inputs", some (.str "b")), ("output", none), ("global_name", some (.str "H")),
    ("banner", some (.str ""))]

theorem load_replaced_named : ∃ o, (usual.load namedFile "/work" "c.yaml" []).value = .ok o ∧
    (usual.load namedFile "/work" "c.yaml" namedSettings).value =
      .ok { o with inputs := ["b"], namespaceName := "H", banner := "" } := by
  cases hpairs : usual.readEntries namedFile "/work" "c.yaml" with
  | error fault =>
      have hread : (usual.readEntries namedFile "/work" "c.yaml").toOption.isSome = true := by
        decide +kernel
      rw [hpairs] at hread
      cases hread
  | ok pairs =>
      cases hload : (usual.load namedFile "/work" "c.yaml" []).value with
      | error fault =>
          have hloads :
              (usual.load namedFile "/work" "c.yaml" []).value.toOption.isSome = true := by
            decide +kernel
          rw [hload] at hloads
          cases hloads
      | ok o =>
          have hkey : (usual.readEntries namedFile "/work" "c.yaml").toOption.map
              (fun ps => (usual.entry? "global_name" ps).isSome) = some true := by decide +kernel
          rw [hpairs] at hkey
          have hall : (standardChecks Text.latinCharacter?).ReplacesAll namedSettings o
              { o with inputs := ["b"], namespaceName := "H", banner := "" } :=
            .cons (.field o (f := .inputs) (by decide) (by decide) rfl)
              (.cons (.nothing "output" _)
                (.cons (.field _ (f := .name) (by decide) (by decide) rfl)
                  (.cons (.field _ (f := .banner) (by decide) (by decide) rfl) (.nil _))))
          have htidy : Path.tidy "c.yaml" = "c.yaml" := by decide +kernel
          refine ⟨o, rfl, (load_replaced usual (standardChecks _) (htidy ▸ hpairs) hload hall).1 ?_⟩
          rintro ⟨key, v, hmem, hname, hnone⟩
          have hsame : key = "global_name" := by
            have hkeys : ∀ k ∈ OptionField.name.keys, k = "global" ∨ k = "global_name" := by decide
            rcases hkeys key hname with rfl | rfl
            · simp [namedSettings] at hmem
            · rfl
          rw [hsame] at hnone
          simp [hnone, Except.toOption] at hkey

/-- The file alone is accepted, and refused with a setting of the global namespace under its first
key. -/
theorem load_refused_named :
    (usual.load namedFile "/work" "c.yaml" []).value.toOption.map (·.namespaceName) = some "G" ∧
      (usual.load namedFile "/work" "c.yaml"
        [("global", some (.str "H"))]).value.toOption.map (·.namespaceName) = none := by
  decide +kernel

end Library

end ScriptModules
