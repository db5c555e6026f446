import ScriptModules.Export.Basic

/-!
# Items in order of first occurrence

An item that has occurred before does not count, and one that has not comes last. Where no item
occurs twice, all of them stay.
-/

namespace ScriptModules

variable {α : Type} [DecidableEq α] {a : α} {l : List α}

theorem unique_of_nodup (h : l.Nodup) : unique l = l := by
  induction l with
  | nil => rfl
  | cons b rest ih =>
      obtain ⟨hb, hrest⟩ := List.nodup_cons.mp h
      rw [unique, ih hrest, List.filter_eq_self.mpr]
      intro c hc
      rw [decide_eq_true_eq]
      rintro rfl
      exact hb hc

theorem filter_unique_append_cons (a : α) (l rest : List α) :
    (unique (l ++ a :: rest)).filter (· ≠ a) = (unique (l ++ rest)).filter (· ≠ a) := by
  induction l with
  | nil => simp [unique]
  | cons b l ih =>
      -- the items other than `b` are filtered first, and the two filters can be exchanged
      have hswap (k : List α) : (k.filter (· ≠ b)).filter (· ≠ a) =
          (k.filter (· ≠ a)).filter (· ≠ b) := by
        rw [List.filter_filter, List.filter_filter]
        exact List.filter_congr fun c _ => Bool.and_comm _ _
      rw [List.cons_append, List.cons_append, unique, unique, List.filter_cons, List.filter_cons,
        hswap, ih, hswap]

/-- An item that has occurred before does not count. -/
theorem unique_append_cons_of_mem (h : a ∈ l) (rest : List α) :
    unique (l ++ a :: rest) = unique (l ++ rest) := by
  induction l with
  | nil => simp at h
  | cons b l ih =>
      rw [List.cons_append, List.cons_append, unique, unique]
      rcases List.mem_cons.mp h with rfl | h
      · rw [filter_unique_append_cons]
      · rw [ih h]

/-- An item that has not occurred before comes last. -/
theorem unique_append_singleton (h : a ∉ l) : unique (l ++ [a]) = unique l ++ [a] := by
  induction l with
  | nil => rfl
  | cons b l ih =>
      rw [List.mem_cons, not_or] at h
      rw [List.cons_append, unique, unique, ih h.2, List.filter_append, List.cons_append]
      simp [h.1]

/-- Items that differ stay different, and their order stays. -/
theorem unique_map {β : Type} [DecidableEq β] {f : α → β} (hf : ∀ a b, f a = f b → a = b)
    (l : List α) :
    unique (l.map f) = (unique l).map f := by
  induction l with
  | nil => rfl
  | cons a rest ih =>
      have hsame (b : α) : decide (f b ≠ f a) = decide (b ≠ a) :=
        decide_eq_decide.mpr (not_congr ⟨hf b a, congrArg f⟩)
      rw [List.map_cons, unique, unique, ih, List.filter_map, List.map_cons]
      congr 2
      exact List.filter_congr fun b _ => hsame b

/-- Of two items, the first one occurs before the other one does. -/
theorem pairwise_unique (l : List α) :
    (unique l).Pairwise fun a b => ∃ front back, l = front ++ a :: back ∧ b ∉ front ∧ b ≠ a := by
  induction l with
  | nil => exact .nil
  | cons a rest ih =>
      refine List.pairwise_cons.mpr ⟨fun b hb => ⟨[], rest, rfl, by simp, ?_⟩, ?_⟩
      · simpa using (List.mem_filter.mp hb).2
      · refine List.Pairwise.imp_of_mem ?_ (ih.filter _)
        rintro b d - hd ⟨front, back, rfl, hfront, hne⟩
        have hda : d ≠ a := by simpa using (List.mem_filter.mp hd).2
        exact ⟨a :: front, back, rfl, by simp [hda, hfront], hne⟩

end ScriptModules
