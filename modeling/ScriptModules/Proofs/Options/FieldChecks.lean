import ScriptModules.Options.Library
import ScriptModules.Proofs.Work

/-!
# Checks field by field

A library that checks options field by field finds the entry of a field under its key, or under its
second key while nothing stands under the first, and refuses every key under which no field was
found. `FieldChecks` says so of any library. The check of options in this development is one of this
kind.
-/

namespace ScriptModules

/-- The fields of options. -/
inductive OptionField where
  | inputs
  | excludes
  | output
  | edgeCases
  | banner
  | name
  deriving DecidableEq

namespace OptionField

def all : List OptionField := [inputs, excludes, output, edgeCases, banner, name]

theorem mem_all (f : OptionField) : f ∈ all := by
  cases f with
  | _ => decide

/-- The key of a field, and its second key if it has one. -/
def field : OptionField → Field
  | inputs => Options.inputsField
  | excludes => Options.excludesField
  | output => Options.outputField
  | edgeCases => Options.edgeCasesField
  | banner => Options.bannerField
  | name => Options.namespaceField

theorem map_field_all : all.map field = Options.fields := rfl

end OptionField

namespace Library

variable {V C : Type}

/-- What a field finds among the entries, with the key under which it stands. -/
def find? (L : Library V C) (f : OptionField) (pairs : List (V × V)) : Option (String × V) :=
  match L.entry? f.field.key pairs with
  | some v => some (f.field.key, v)
  | none => f.field.other.bind fun k => (L.entry? k pairs).map fun v => (k, v)

/-- A field is found under the key. -/
def Uses (L : Library V C) (pairs : List (V × V)) (key : String) : Prop :=
  ∃ f v, L.find? f pairs = some (key, v)

/-- Every key is a text under which a field is found. -/
def UsesAll (L : Library V C) (pairs : List (V × V)) : Prop :=
  ∀ pair ∈ pairs, ∃ key, L.text? pair.1 = some key ∧ L.Uses pairs key

end Library

/-- A library checks options field by field. -/
structure FieldChecks {V C : Type} (L : Library V C) where
  /-- What a field of options holds. -/
  Holds : OptionField → Type
  get : (f : OptionField) → C → Holds f
  make : ((f : OptionField) → Holds f) → C
  get_make : ∀ held f, get f (make held) = held f
  make_get : ∀ c, make (fun f => get f c) = c
  /-- What a field makes of its entry, or of having none; nothing if it refuses it. -/
  check : (f : OptionField) → Option V → Option (Holds f)
  /-- Options are accepted if all fields accept their entries and no key is left over. -/
  accepts : ∀ pairs c, L.validate pairs = .ok c ↔
    (∀ f, check f ((L.find? f pairs).map (·.2)) = some (get f c)) ∧ L.UsesAll pairs
  /-- Where all is well but for keys that are left over, these keys are what the refusal lists. -/
  refuses : ∀ pairs, (∀ f, (check f ((L.find? f pairs).map (·.2))).isSome = true) →
    (∀ pair ∈ pairs, (L.text? pair.1).isSome = true) → ¬L.UsesAll pairs →
    ∃ e, L.validate pairs = .error e ∧ e.kind = .refusal ∧ e.issues ≠ [] ∧
      ∀ i ∈ e.issues, ∃ key, (L.entry? key pairs).isSome = true ∧ ¬L.Uses pairs key ∧
        i = ⟨[.text key], .unknownKey⟩
  /-- The global namespace must be given. -/
  name_required : check .name none = none

namespace Checked

variable {α β : Type}

theorem apply_eq_ok {f : Checked (α → β)} {x : Checked α} {b : β} :
    f.apply x = .ok b ↔ ∃ g a, f = .ok g ∧ x = .ok a ∧ g a = b := by
  cases f with
  | ok g =>
      cases x with
      | ok a => simp [apply]
      | error e => simp [apply]
  | error e =>
      cases x with
      | ok a => simp [apply]
      | error e' => simp [apply]

theorem map_eq_ok {f : α → β} {x : Checked α} {b : β} :
    x.map f = .ok b ↔ ∃ a, x = .ok a ∧ f a = b := by
  cases x with
  | ok a => simp [Except.map]
  | error e => simp [Except.map]

theorem toOption_eq_some {x : Checked α} {a : α} : x.toOption = some a ↔ x = .ok a := by
  cases x with
  | ok b => simp [Except.toOption]
  | error e => simp [Except.toOption]

@[simp] theorem under_issue (step : KeyStep) (kind : IssueKind) :
    under step (issue kind : Checked α) = .error (.issues [⟨[step], kind⟩]) := rfl

theorem under_eq_ok {step : KeyStep} {x : Checked α} {a : α} :
    x.under step = .ok a ↔ x = .ok a :=
  mapError_eq_ok

/-- All items are free of issues if each of them is. -/
theorem exists_all_eq_ok {f : α → Checked β} {l : List α} :
    (∃ bs, all f l = .ok bs) ↔ ∀ a ∈ l, ∃ b, f a = .ok b := by
  induction l with
  | nil => simp [all]
  | cons a rest ih =>
      simp only [all, apply_eq_ok, map_eq_ok, List.forall_mem_cons, ← ih]
      constructor
      · rintro ⟨bs, g, bs', ⟨b, hb, -⟩, hbs', -⟩
        exact ⟨⟨b, hb⟩, bs', hbs'⟩
      · rintro ⟨⟨b, hb⟩, bs, hbs⟩
        exact ⟨b :: bs, _, bs, ⟨b, hb, rfl⟩, hbs, rfl⟩

/-- A setting has issues, and all of them are of one kind. -/
def Refuses (P : Issue → Prop) (x : Checked α) : Prop :=
  ∃ found, x = .error (.issues found) ∧ found ≠ [] ∧ ∀ i ∈ found, P i

variable {P : Issue → Prop}

theorem Refuses.map {x : Checked α} (h : x.Refuses P) (f : α → β) : Refuses P (x.map f) := by
  obtain ⟨found, rfl, hfound⟩ := h
  exact ⟨found, rfl, hfound⟩

theorem ok_or_refuses_apply {f : Checked (α → β)} {x : Checked α}
    (hf : (∃ g, f = .ok g) ∨ f.Refuses P) (hx : (∃ a, x = .ok a) ∨ x.Refuses P) :
    (∃ b, f.apply x = .ok b) ∨ (f.apply x).Refuses P := by
  rcases hf with ⟨g, rfl⟩ | ⟨found, rfl, hne, hall⟩
  · rcases hx with ⟨a, rfl⟩ | ⟨found, rfl, hfound⟩
    · exact .inl ⟨g a, rfl⟩
    · exact .inr ⟨found, rfl, hfound⟩
  · rcases hx with ⟨a, rfl⟩ | ⟨found', rfl, -, hall'⟩
    · exact .inr ⟨found, rfl, hne, hall⟩
    · refine .inr ⟨found ++ found', rfl, by simp [hne], fun i hi => ?_⟩
      rcases List.mem_append.mp hi with hi | hi
      · exact hall i hi
      · exact hall' i hi

/-- Items with issues of one kind only have no others together. -/
theorem ok_or_refuses_all {f : α → Checked β} {l : List α}
    (h : ∀ a ∈ l, (∃ b, f a = .ok b) ∨ (f a).Refuses P) :
    (∃ bs, all f l = .ok bs) ∨ (all f l).Refuses P := by
  induction l with
  | nil => exact .inl ⟨[], rfl⟩
  | cons a rest ih =>
      obtain ⟨hfirst, hrest⟩ := List.forall_mem_cons.mp h
      refine ok_or_refuses_apply ?_ (ih hrest)
      rcases hfirst with ⟨b, hb⟩ | hrefuses
      · exact .inl ⟨_, map_eq_ok.mpr ⟨b, hb, rfl⟩⟩
      · exact .inr (hrefuses.map _)

end Checked

open Checked

namespace Field

variable {α : Type} {pairs : List (Value × Value)} {f : Field} {k : String}

theorem checkRequired_eq_ok {check : Value → Checked α} {a : α} :
    f.checkRequired pairs check = .ok a ↔
      (((f.find? pairs).map (·.2)).bind fun v => (check v).toOption) = some a := by
  rw [checkRequired]
  cases f.find? pairs with
  | none => simp
  | some found => simp [under_eq_ok, toOption_eq_some]

theorem checkOr_eq_ok {check : Value → Checked α} {default a : α} :
    f.checkOr pairs default check = .ok a ↔
      (((f.find? pairs).map (·.2)).elim (some default) fun v => (check v).toOption) = some a := by
  rw [checkOr]
  cases f.find? pairs with
  | none => simp
  | some found => simp [under_eq_ok, toOption_eq_some]

theorem mem_usedKeys {fields : List Field} :
    k ∈ usedKeys fields pairs ↔ ∃ f ∈ fields, ∃ w, f.find? pairs = some (k, w) := by
  simp [usedKeys]

theorem checkKey_eq_ok {used : List String} {pair : Value × Value} {u : Unit} :
    checkKey used pair = .ok u ↔ ∃ key ∈ used, pair.1.str? = some key := by
  obtain ⟨k, v⟩ := pair
  cases k with
  | str k =>
      rw [checkKey]
      by_cases hk : k ∈ used
      · simp [hk, Value.str?]
      · simp [hk, Value.str?]
  | _ => simp [checkKey, Value.str?]

theorem checkKeys_eq_ok {fields : List Field} {u : Unit} : checkKeys fields pairs = .ok u ↔
    ∀ pair ∈ pairs, ∃ key ∈ usedKeys fields pairs, pair.1.str? = some key := by
  rw [checkKeys, map_eq_ok]
  simp only [and_true, exists_all_eq_ok, checkKey_eq_ok, exists_const]

/-- Keys that are texts have no other issue than that no field was found under them. -/
theorem checkKeys_refuses {fields : List Field}
    (htexts : ∀ pair ∈ pairs, (pair.1.str?).isSome = true) (h : checkKeys fields pairs ≠ .ok ()) :
    (checkKeys fields pairs).Refuses fun i => ∃ key, (∃ pair ∈ pairs, pair.1.str? = some key) ∧
      key ∉ usedKeys fields pairs ∧ i = ⟨[.text key], .unknownKey⟩ := by
  refine Refuses.map (Or.resolve_left (ok_or_refuses_all fun pair hpair => ?_) ?_) _
  · obtain ⟨key, hkey⟩ := Option.isSome_iff_exists.mp (htexts pair hpair)
    by_cases hused : key ∈ usedKeys fields pairs
    · exact .inl ⟨(), checkKey_eq_ok.mpr ⟨key, hused, hkey⟩⟩
    · refine .inr ⟨[⟨[.text key], .unknownKey⟩], ?_, by simp, ?_⟩
      · obtain ⟨k, v⟩ := pair
        cases k with
        | str k =>
            obtain rfl : k = key := Option.some.inj hkey
            simp [checkKey, hused]
        | _ => cases hkey
      · intro i hi
        exact ⟨key, ⟨pair, hpair, hkey⟩, hused, List.mem_singleton.mp hi⟩
  · rintro ⟨bs, hbs⟩
    exact h (map_eq_ok.mpr ⟨bs, hbs, rfl⟩)

end Field

namespace Options

variable {characters : Pattern.CharacterNames} {pairs : List (Value × Value)} {o : Options}

/-- What the fields of options hold. -/
abbrev Holds : OptionField → Type
  | .inputs | .excludes => List String
  | .output | .banner | .name => String
  | .edgeCases => List (String × EdgeCase)

/-- What a field of options holds. -/
def get : (f : OptionField) → Options → Holds f
  | .inputs, o => o.inputs
  | .excludes, o => o.excludes
  | .output, o => o.output
  | .edgeCases, o => o.edgeCases
  | .banner, o => o.banner
  | .name, o => o.namespaceName

/-- Options from what their fields hold. -/
def ofFields (held : (f : OptionField) → Holds f) : Options where
  inputs := held .inputs
  excludes := held .excludes
  output := held .output
  edgeCases := held .edgeCases
  banner := held .banner
  namespaceName := held .name

/-- What a field makes of its entry, or of having none. -/
def checkField (characters : Pattern.CharacterNames) :
    (f : OptionField) → Option Value → Option (Holds f)
  | .inputs, v => v.bind fun v => (checkTexts "inputs" v).toOption
  | .excludes, v => v.elim (some []) fun v => (checkTextsOrNull "excludes" v).toOption
  | .output, v => v.bind fun v => (checkText v).toOption
  | .edgeCases, v => v.elim (some []) fun v => (checkEdgeCases characters v).toOption
  | .banner, v => v.elim (some "") fun v => (checkText v).toOption
  | .name, v => v.bind fun v => (checkName v).toOption

/-- All fields give what the options hold, whatever other keys there are. -/
def Gives (characters : Pattern.CharacterNames) (pairs : List (Value × Value)) (o : Options) :
    Prop :=
  ∀ f, checkField characters f ((f.field.find? pairs).map (·.2)) = some (get f o)

theorem Gives.checkPairs_eq (h : Gives characters pairs o) :
    checkPairs characters pairs = (Field.checkKeys fields pairs).map fun _ => o := by
  have hinputs : inputsField.checkRequired pairs (checkTexts "inputs") = .ok o.inputs :=
    Field.checkRequired_eq_ok.mpr (h .inputs)
  have hexcludes : excludesField.checkOr pairs [] (checkTextsOrNull "excludes") = .ok o.excludes :=
    Field.checkOr_eq_ok.mpr (h .excludes)
  have houtput : outputField.checkRequired pairs checkText = .ok o.output :=
    Field.checkRequired_eq_ok.mpr (h .output)
  have hcases : edgeCasesField.checkOr pairs [] (checkEdgeCases characters) = .ok o.edgeCases :=
    Field.checkOr_eq_ok.mpr (h .edgeCases)
  have hbanner : bannerField.checkOr pairs "" checkText = .ok o.banner :=
    Field.checkOr_eq_ok.mpr (h .banner)
  have hname : namespaceField.checkRequired pairs checkName = .ok o.namespaceName :=
    Field.checkRequired_eq_ok.mpr (h .name)
  rw [checkPairs, hinputs, hexcludes, houtput, hcases, hbanner, hname, andThen]
  cases Field.checkKeys fields pairs with
  | ok u => rfl
  | error e => rfl

/-- Options are accepted if all fields give them and no key is left over. -/
theorem check_eq_ok_iff : check characters (.map pairs) = .ok o ↔
    Gives characters pairs o ∧ Field.checkKeys fields pairs = .ok () := by
  constructor
  · intro h
    rw [check, checkPairs, andThen] at h
    simp only [apply_eq_ok, map_eq_ok] at h
    obtain ⟨_, _, ⟨_, ⟨_, _, ⟨_, _, ⟨_, _, ⟨_, _, ⟨_, _, ⟨_, _, hmk, hinputs, rfl⟩, hexcludes, rfl⟩,
      houtput, rfl⟩, hcases, rfl⟩, hbanner, rfl⟩, hname, rfl⟩, rfl⟩, hkeys, rfl⟩ := h
    obtain rfl := Except.ok.inj hmk
    refine ⟨fun f => ?_, hkeys⟩
    cases f with
    | inputs => exact Field.checkRequired_eq_ok.mp hinputs
    | excludes => exact Field.checkOr_eq_ok.mp hexcludes
    | output => exact Field.checkRequired_eq_ok.mp houtput
    | edgeCases => exact Field.checkOr_eq_ok.mp hcases
    | banner => exact Field.checkOr_eq_ok.mp hbanner
    | name => exact Field.checkRequired_eq_ok.mp hname
  · rintro ⟨hgives, hkeys⟩
    rw [check, hgives.checkPairs_eq, hkeys]
    rfl

end Options

namespace Library

variable {characters : Pattern.CharacterNames} {pairs : List (Value × Value)}

theorem find?_standard (f : OptionField) (pairs : List (Value × Value)) :
    (standard characters).find? f pairs = f.field.find? pairs := by
  have hentry (key : String) :
      entry? (standard characters) key pairs = Value.entry? key pairs := rfl
  simp only [find?, Field.find?, hentry]
  cases Value.entry? f.field.key pairs with
  | none => rfl
  | some v => rfl

theorem uses_standard {key : String} :
    (standard characters).Uses pairs key ↔ key ∈ Field.usedKeys Options.fields pairs := by
  rw [Field.mem_usedKeys, ← OptionField.map_field_all, Uses]
  simp only [find?_standard]
  constructor
  · rintro ⟨f, v, hfind⟩
    exact ⟨f.field, List.mem_map_of_mem f.mem_all, v, hfind⟩
  · rintro ⟨f, hf, v, hfind⟩
    obtain ⟨f, -, rfl⟩ := List.mem_map.mp hf
    exact ⟨f, v, hfind⟩

theorem usesAll_standard :
    (standard characters).UsesAll pairs ↔ Field.checkKeys Options.fields pairs = .ok () := by
  rw [Field.checkKeys_eq_ok, UsesAll]
  simp only [uses_standard]
  refine forall₂_congr fun pair _ => exists_congr fun key => ?_
  exact and_comm

/-- The check of options in this development goes field by field. -/
def standardChecks (characters : Pattern.CharacterNames) : FieldChecks (standard characters) where
  Holds := Options.Holds
  get := Options.get
  make := Options.ofFields
  get_make held f := by
    cases f with
    | _ => rfl
  make_get _ := rfl
  check := Options.checkField characters
  accepts pairs o := by
    rw [usesAll_standard]
    change (Options.check characters (.map pairs)).mapError Refusal.raised = .ok o ↔ _
    rw [mapError_eq_ok, Options.check_eq_ok_iff, Options.Gives]
    simp only [find?_standard]
  refuses pairs hfields htexts hunused := by
    simp only [find?_standard] at hfields
    have hgives : Options.Gives characters pairs
        (Options.ofFields fun f => Option.get _ (hfields f)) := by
      intro f
      cases f with
      | _ => exact (Option.some_get _).symm
    rw [usesAll_standard] at hunused
    obtain ⟨found, hfound, hne, hall⟩ := Field.checkKeys_refuses htexts hunused
    refine ⟨(Refusal.issues found).raised, ?_, rfl, hne, ?_⟩
    · change (Options.check characters (.map pairs)).mapError Refusal.raised = _
      rw [Options.check, hgives.checkPairs_eq, hfound]
      rfl
    · intro i hi
      obtain ⟨key, hkey, hused, rfl⟩ := hall i hi
      exact ⟨key, Entries.isSome_find?_iff.mpr hkey, fun h => hused (uses_standard.mp h), rfl⟩
  name_required := rfl

end Library

end ScriptModules
