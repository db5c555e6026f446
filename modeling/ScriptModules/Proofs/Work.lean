import ScriptModules.Failure

/-!
# Values of work with notices

The value of a computation that gives notices does not depend on the notices. A computation in steps
succeeds exactly if every step does, and its value is the one that the last step gives.
-/

namespace ScriptModules

/-- A computation in two steps succeeds if both steps do. -/
theorem bind_eq_ok {ε α β : Type} {x : Except ε α} {f : α → Except ε β} {b : β} :
    x >>= f = .ok b ↔ ∃ a, x = .ok a ∧ f a = .ok b := by
  cases x with
  | error e => simp [bind, Except.bind]
  | ok a => simp [bind, Except.bind]

@[simp] theorem throw_ne_ok {ε α : Type} {e : ε} {a : α} : (throw e : Except ε α) ≠ .ok a := nofun

theorem mapError_eq_ok {ε δ α : Type} {x : Except ε α} {f : ε → δ} {a : α} :
    x.mapError f = .ok a ↔ x = .ok a := by
  cases x with
  | ok b =>
      exact ⟨fun h => congrArg Except.ok (Except.ok.inj h),
        fun h => congrArg Except.ok (Except.ok.inj h)⟩
  | error e => exact ⟨nofun, nofun⟩

theorem mapError_eq_error {ε δ α : Type} {x : Except ε α} {g : ε → δ} {f : δ} :
    x.mapError g = .error f ↔ ∃ e, x = .error e ∧ g e = f := by
  cases x with
  | ok a =>
      constructor
      · intro h
        cases h
      · rintro ⟨e, h, -⟩
        cases h
  | error e =>
      constructor
      · intro h
        exact ⟨e, rfl, Except.error.inj h⟩
      · rintro ⟨e', h, rfl⟩
        obtain rfl := Except.error.inj h
        rfl

/-- Working through a list succeeds where every item does. -/
theorem mapM_eq_ok {ε α β : Type} {f : α → Except ε β} {g : α → β} {l : List α}
    (h : ∀ a ∈ l, f a = .ok (g a)) :
    l.mapM f = .ok (l.map g) := by
  induction l with
  | nil => rfl
  | cons a rest ih =>
      have hrest := ih fun b hb => h b (List.mem_cons_of_mem _ hb)
      rw [List.mapM_cons, h a (by simp), hrest]
      rfl

/-- Where working through a list succeeds, it gives what the items give. -/
theorem eq_filterMap_of_mapM {ε α β : Type} {f : α → Except ε β} {l : List α} {bs : List β}
    (h : l.mapM f = .ok bs) :
    bs = l.filterMap fun a => (f a).toOption := by
  induction l generalizing bs with
  | nil => exact (Except.ok.inj h).symm
  | cons a rest ih =>
      rw [List.mapM_cons] at h
      obtain ⟨b, hb, h⟩ := bind_eq_ok.mp h
      obtain ⟨others, hothers, h⟩ := bind_eq_ok.mp h
      obtain rfl := Except.ok.inj h
      rw [List.filterMap_cons, hb, ih hothers]
      rfl

/-- Where working through a list succeeds, every item does. -/
theorem exists_ok_of_mapM {ε α β : Type} {f : α → Except ε β} {l : List α} {bs : List β}
    (h : l.mapM f = .ok bs) {a : α} (ha : a ∈ l) : ∃ b, f a = .ok b := by
  induction l generalizing bs with
  | nil => simp at ha
  | cons first rest ih =>
      rw [List.mapM_cons] at h
      obtain ⟨b, hb, h⟩ := bind_eq_ok.mp h
      obtain ⟨others, hothers, -⟩ := bind_eq_ok.mp h
      rcases List.mem_cons.mp ha with rfl | ha
      · exact ⟨b, hb⟩
      · exact ih hothers ha

/-- Steps that do the same for all items of a list do the same for the list. -/
theorem foldlM_congr {m : Type → Type} [Monad m] {α β : Type} {f g : β → α → m β} {l : List α}
    (h : ∀ a ∈ l, ∀ b, f b a = g b a) (b : β) : l.foldlM f b = l.foldlM g b := by
  induction l generalizing b with
  | nil => rw [List.foldlM_nil, List.foldlM_nil]
  | cons a rest ih =>
      have hrest := ih fun c hc => h c (List.mem_cons_of_mem _ hc)
      rw [List.foldlM_cons, List.foldlM_cons, h a (by simp), funext hrest]

namespace Noted

variable {α β : Type}

@[simp] theorem value_pure (a : α) : (pure a : Noted α).value = a := rfl

@[simp] theorem value_bind (x : Noted α) (f : α → Noted β) : (x >>= f).value = (f x.value).value :=
  rfl

@[simp] theorem value_map (f : α → β) (x : Noted α) : (f <$> x).value = f x.value := rfl

theorem notices_bind (x : Noted α) (f : α → Noted β) :
    (x >>= f).notices = x.notices ++ (f x.value).notices := rfl

theorem ext {x y : Noted α} (hvalue : x.value = y.value) (hnotices : x.notices = y.notices) :
    x = y := by
  cases x
  cases y
  simp_all

instance : LawfulMonad Noted := LawfulMonad.mk' Noted
  (fun _ => Noted.ext rfl (List.append_nil _))
  (fun _ _ => Noted.ext rfl (List.nil_append _))
  (fun _ _ _ => Noted.ext rfl (List.append_assoc ..))

/-- Working through a list gives the values of its items in order. -/
@[simp] theorem value_mapM (f : α → Noted β) (l : List α) :
    (l.mapM f).value = l.map fun a => (f a).value := by
  induction l with
  | nil => rfl
  | cons a rest ih => simp [List.mapM_cons, ih]

/-- What the items of a list give, taken together. -/
theorem mem_flatten_mapM {f : α → Noted (List β)} {l : List α} {b : β} :
    b ∈ (l.mapM f).value.flatten ↔ ∃ a ∈ l, b ∈ (f a).value := by
  rw [value_mapM, ← List.flatMap_def, List.mem_flatMap]

@[simp] theorem value_foldlM (f : β → α → Noted β) (b : β) (l : List α) :
    (l.foldlM f b).value = l.foldl (fun b a => (f b a).value) b := by
  induction l generalizing b with
  | nil => rfl
  | cons a rest ih => simp [List.foldlM_cons, ih]

end Noted

namespace Work

variable {α β : Type}

@[simp] theorem value_result (x : Except Failure α) : (result x).run.value = x := rfl

theorem value_bind (x : Work α) (f : α → Work β) :
    (x >>= f).run.value = x.run.value >>= fun a => (f a).run.value := by
  change Noted.value (ExceptT.bindCont f x.run.value) = _
  cases x.run.value <;> rfl

theorem value_foldlM (f : β → α → Work β) (b : β) (l : List α) :
    (l.foldlM f b).run.value = l.foldlM (fun b a => (f b a).run.value) b := by
  induction l generalizing b with
  | nil => rfl
  | cons a rest ih => simp only [List.foldlM_cons, value_bind, ih]

theorem value_bind_eq_ok {x : Work α} {f : α → Work β} {b : β} :
    (x >>= f).run.value = .ok b ↔ ∃ a, x.run.value = .ok a ∧ (f a).run.value = .ok b := by
  rw [value_bind, bind_eq_ok]

/-- What follows a success adds its notices. -/
theorem notices_bind_of_ok {x : Work α} {a : α} (h : x.run.value = .ok a) (f : α → Work β) :
    (x >>= f).run.notices = x.run.notices ++ (f a).run.notices := by
  change x.run.notices ++ (ExceptT.bindCont f x.run.value).notices = _
  rw [h]
  rfl

end Work

end ScriptModules
