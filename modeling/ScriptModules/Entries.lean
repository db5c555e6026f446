/-!
# Entries of mappings

A mapping is a list of keys with values. Keys may be of any kind; entries are looked for, and put in
place, under keys that are texts.
-/

namespace ScriptModules.Entries

variable {V : Type}

/-- The value under a text. `text?` gives the text of a key that is one. -/
def find? (text? : V → Option String) (key : String) : List (V × V) → Option V
  | [] => none
  | (k, v) :: rest => if text? k = some key then some v else find? text? key rest

/-- Puts a value under a text, in the place of an earlier one. -/
def put (text? : V → Option String) (ofText : String → V) (key : String) (v : V) :
    List (V × V) → List (V × V)
  | [] => [(ofText key, v)]
  | (k, old) :: rest =>
    if text? k = some key then (k, v) :: rest else (k, old) :: put text? ofText key v rest

/-- The value put under a text is found there, and no other entry has changed. -/
theorem find?_put {text? : V → Option String} {ofText : String → V} (key other : String) (v : V)
    (pairs : List (V × V)) (h : text? (ofText key) = some key) :
    find? text? other (put text? ofText key v pairs) =
      if other = key then some v else find? text? other pairs := by
  induction pairs with
  | nil =>
    by_cases hother : other = key
    · simp [put, find?, h, hother]
    · simp [put, find?, h, hother, Ne.symm hother]
  | cons pair rest ih =>
    obtain ⟨k, old⟩ := pair
    by_cases hk : text? k = some key
    · by_cases hother : other = key
      · simp [put, find?, hk, hother]
      · simp [put, find?, hk, hother, Ne.symm hother]
    · by_cases hfound : text? k = some other
      · have hne : other ≠ key := by
          rintro rfl
          exact hk hfound
        simp [put, find?, hfound, hne]
      · simp [put, find?, hk, hfound, ih]

/-- A value is found under a text exactly if the text is one of the keys. -/
theorem isSome_find?_iff {text? : V → Option String} {key : String} {pairs : List (V × V)} :
    (find? text? key pairs).isSome = true ↔ ∃ pair ∈ pairs, text? pair.1 = some key := by
  induction pairs with
  | nil => simp [find?]
  | cons pair rest ih =>
    obtain ⟨k, v⟩ := pair
    by_cases hk : text? k = some key
    · simp [find?, hk]
    · simp [find?, hk, ih]

/-- An entry is under the text where a value was put, or was there before. -/
theorem mem_put {text? : V → Option String} {ofText : String → V} {key : String} {v : V}
    {pairs : List (V × V)} {pair : V × V} (h : text? (ofText key) = some key)
    (hmem : pair ∈ put text? ofText key v pairs) : text? pair.1 = some key ∨ pair ∈ pairs := by
  induction pairs with
  | nil =>
    obtain rfl := List.mem_singleton.mp hmem
    exact .inl h
  | cons first rest ih =>
    obtain ⟨k, old⟩ := first
    rw [put] at hmem
    split at hmem
    · rename_i hk
      rcases List.mem_cons.mp hmem with rfl | hmem
      · exact .inl hk
      · exact .inr (List.mem_cons_of_mem _ hmem)
    · rcases List.mem_cons.mp hmem with rfl | hmem
      · exact .inr List.mem_cons_self
      · exact (ih hmem).imp_right (List.mem_cons_of_mem _)

end ScriptModules.Entries
