import ScriptModules.Block.Basic
import ScriptModules.Proofs.Export.Writable

/-!
# Lists in braces

A list is written between braces, one item on the line or each on its own, with blanks around the
items and commas between them. Cut at the commas and squeezed, the inside of the braces gives the
items back in order.
-/

namespace ScriptModules

open Text

/-- An identifier can be an item of a list. -/
theorem Text.IsIdentifier.isListItem {name : List Char} (h : IsIdentifier name) :
    IsListItem name where
  ne_nil := h.1
  squeezed := squeeze_of_isSolid h.isSolid
  brace := h.not_mem (by decide)
  comma := h.not_mem (by decide)

/-- So can a renaming. -/
theorem isListItem_renaming {name new : List Char} (hname : IsIdentifier name)
    (hnew : IsIdentifier new) :
    IsListItem (name ++ (' ' :: ("as".toList ++ (' ' :: new)))) := by
  have hmem : ∀ x, isIdent x = false → x ≠ ' ' →
      x ∉ name ++ (' ' :: ("as".toList ++ (' ' :: new))) := by
    intro x hx hspace hmem
    have has : x ∉ "as".toList := (show IsIdentifier "as".toList by decide).not_mem hx
    simp only [List.mem_append, List.mem_cons, hname.not_mem hx, hnew.not_mem hx, has, hspace]
      at hmem
    simp at hmem
  refine ⟨by simp, ?_, hmem _ (by decide) (by decide), hmem _ (by decide) (by decide)⟩
  have has : words "as".toList = ["as".toList] := by decide
  rw [squeeze, words_append_blank (by decide), words_append_blank (by decide), has,
    words_of_isSolid hname.isSolid, words_of_isSolid hnew.isSolid]
  simp

theorem squeeze_padded (item : List Char) : squeeze (' ' :: (item ++ [' '])) = squeeze item := by
  rw [squeeze_cons_blank (by decide), squeeze_append_blank (by decide)]

theorem not_mem_padded {x : Char} {item : List Char} (hx : x ≠ ' ') (h : x ∉ item) :
    x ∉ ' ' :: (item ++ [' ']) := by
  simp [hx, h]

/-- Items on lines of their own, with commas between them. -/
def itemLines (items : List (List Char)) : List Char :=
  '\n' :: ([',', '\n'].intercalate (items.map ('\t' :: ·)) ++ ['\n'])

/-- Items on lines of their own are read back in order. -/
theorem splitOn_itemLines {item : List Char} {items : List (List Char)}
    (h : ∀ i ∈ item :: items, IsListItem i) :
    (splitOn ',' (itemLines (item :: items))).map squeeze = item :: items := by
  induction items generalizing item with
  | nil =>
      have hitem := h item (by simp)
      have hcomma : ',' ∉ '\n' :: '\t' :: (item ++ ['\n']) := by simp [hitem.comma]
      have hsqueeze : squeeze ('\n' :: '\t' :: (item ++ ['\n'])) = item := by
        rw [squeeze_cons_blank (by decide), squeeze_cons_blank (by decide),
          squeeze_append_blank (by decide), hitem.squeezed]
      simp [itemLines, splitOn_of_not_mem hcomma, hsqueeze]
  | cons next items ih =>
      have hitem := h item (by simp)
      have hrest := ih fun i hi => h i (List.mem_cons_of_mem _ hi)
      have hcomma : ',' ∉ '\n' :: '\t' :: item := by simp [hitem.comma]
      have hsqueeze : squeeze ('\n' :: '\t' :: item) = item := by
        rw [squeeze_cons_blank (by decide), squeeze_cons_blank (by decide), hitem.squeezed]
      have hjoin : itemLines (item :: next :: items) =
          ('\n' :: '\t' :: item) ++ ',' :: itemLines (next :: items) := by
        simp [itemLines]
      rw [hjoin, splitOn_append, splitOn_of_not_mem hcomma, List.singleton_append, List.map_cons,
        hsqueeze, hrest]

theorem mem_itemLines {x : Char} {items : List (List Char)} (h : x ∈ itemLines items) :
    isBlank x = true ∨ x = ',' ∨ ∃ item ∈ items, x ∈ item := by
  have hfeed : isBlank '\n' = true := by decide
  rcases List.mem_cons.mp h with rfl | h
  · exact .inl hfeed
  rcases List.mem_append.mp h with h | h
  · rcases exists_of_mem_intercalate h with ⟨line, hline, hx⟩ | hx
    · obtain ⟨item, hitem, rfl⟩ := List.mem_map.mp hline
      rcases List.mem_cons.mp hx with rfl | hx
      · exact .inl (by decide)
      · exact .inr (.inr ⟨item, hitem, hx⟩)
    · rcases List.mem_pair.mp hx with rfl | rfl
      · exact .inr (.inl rfl)
      · exact .inl hfeed
  · obtain rfl := List.mem_singleton.mp h
    exact .inl hfeed

/-- Between the braces stand the items, commas and blanks, and the items are read back in order. -/
theorem exists_toList_braced (keyword : String) {items : List String} (hne : items ≠ [])
    (hitems : ∀ item ∈ items, IsListItem item.toList) :
    ∃ inside, (braced keyword items).toList =
      keyword.toList ++ (' ' :: '\x7b' :: (inside ++ ['\x7d'])) ∧
      inside ≠ [] ∧ (∀ x ∈ inside, isBlank x = true ∨ x = ',' ∨ ∃ item ∈ items, x ∈ item.toList) ∧
      (splitOn ',' inside).map squeeze = items.map String.toList := by
  match items, hne with
  | [item], _ =>
      have hitem := hitems item (by simp)
      refine ⟨' ' :: (item.toList ++ [' ']), by simp [braced], by simp, ?_, ?_⟩
      · intro x hx
        rcases List.mem_cons.mp hx with rfl | hx
        · exact .inl (by decide)
        · rcases List.mem_append.mp hx with hx | hx
          · exact .inr (.inr ⟨item, by simp, hx⟩)
          · obtain rfl := List.mem_singleton.mp hx
            exact .inl (by decide)
      · rw [splitOn_of_not_mem (not_mem_padded (by decide) hitem.comma), List.map_singleton,
          squeeze_padded, hitem.squeezed, List.map_singleton]
  | item :: next :: items, _ =>
      have hlists : ∀ i ∈ (item :: next :: items).map String.toList, IsListItem i := by
        rw [List.forall_mem_map]
        exact hitems
      refine ⟨itemLines ((item :: next :: items).map String.toList), ?_,
        by simp [itemLines], ?_, ?_⟩
      · simp [braced, itemLines, String.toList_intercalate, Function.comp_def]
      · intro x hx
        simpa using mem_itemLines hx
      · exact splitOn_itemLines hlists

/-- No brace ends the list before its end. -/
theorem brace_not_mem_inside {inside : List Char} {items : List String}
    (hitems : ∀ item ∈ items, IsListItem item.toList)
    (h : ∀ x ∈ inside, isBlank x = true ∨ x = ',' ∨ ∃ item ∈ items, x ∈ item.toList) :
    '\x7d' ∉ inside := by
  intro hbrace
  rcases h _ hbrace with hblank | hcomma | ⟨item, hitem, hmem⟩
  · simp [isBlank] at hblank
  · simp at hcomma
  · exact (hitems item hitem).brace hmem

end ScriptModules
