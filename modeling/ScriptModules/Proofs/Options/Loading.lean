import ScriptModules.Options.Load
import ScriptModules.Proofs.Work

/-!
# Loading options

Options are loaded in steps, and each of them can fail: the file is read, the library reads its
document, the document must be a mapping, its paths are resolved, settings take the place of
entries, and the library checks the result. Main statement: loading fails with a fault exactly if
one of these steps fails with it. Nothing is assumed of the library.
-/

namespace ScriptModules

section Faults

variable {ε δ α β : Type}

/-- The fault of a computation, if it has one. -/
def fault? : Except ε α → Option ε
  | .ok _ => none
  | .error e => some e

@[simp] theorem fault?_pure (a : α) : fault? (pure a : Except ε α) = none := rfl

end Faults

namespace Library

variable {V C : Type}

/-- The directory from which the paths in a file are seen. -/
def directoryOf (t : FileTree) (cwd path : String) : List String :=
  (Path.parts (t.resolve (Path.parts cwd) path)).dropLast

/-- The entries with their paths as seen from a directory. -/
def resolveEntries (L : Library V C) (t : FileTree) (dir : List String) (pairs : List (V × V)) :
    Except LoadFault (List (V × V)) := do
  let pairs ← L.modifyEntry "inputs" (L.resolveInputs t dir) pairs
  L.modifyEntry "output" (L.resolvePath t dir) pairs

variable {L : Library V C} {t : FileTree} {cwd path : String} {settings : Settings V}

theorem gather_eq (L : Library V C) (t : FileTree) (cwd path : String) (settings : Settings V) :
    L.gather t cwd path settings = (do
      let pairs ← L.readEntries t cwd (Path.tidy path)
      let resolved ← L.resolveEntries t (directoryOf t cwd path) pairs
      return L.override settings resolved) := by
  simp only [gather, resolveEntries, directoryOf, bind_assoc]

theorem gather_eq_ok {gathered : List (V × V)} : L.gather t cwd path settings = .ok gathered ↔
    ∃ pairs, L.readEntries t cwd (Path.tidy path) = .ok pairs ∧
      ∃ resolved, L.resolveEntries t (directoryOf t cwd path) pairs = .ok resolved ∧
        L.override settings resolved = gathered := by
  rw [gather_eq]
  simp only [bind_eq_ok, pure, Except.pure, Except.ok.injEq]

theorem value_load (L : Library V C) (t : FileTree) (cwd path : String) (settings : Settings V) :
    (L.load t cwd path settings).value =
      L.gather t cwd path settings >>= fun pairs => (L.validate pairs).mapError .raised := by
  unfold load
  cases L.gather t cwd path settings with
  | error fault => rfl
  | ok pairs => rfl

section Resolving

variable {dir : List String} {pairs : List (V × V)} {key : String} {f : V → Except LoadFault V}

/-- Changing an entry leaves all others as they are. -/
theorem entry?_modifyEntry {changed : List (V × V)} (h : L.modifyEntry key f pairs = .ok changed)
    {other : String} (hother : other ≠ key) : L.entry? other changed = L.entry? other pairs := by
  rw [modifyEntry] at h
  cases hv : L.entry? key pairs with
  | none =>
      rw [hv] at h
      obtain rfl := Except.ok.inj h
      rfl
  | some v =>
      rw [hv] at h
      obtain ⟨w, -, h⟩ := bind_eq_ok.mp h
      obtain rfl := Except.ok.inj h
      rw [entry?_setEntry, if_neg hother]

end Resolving

end Library

end ScriptModules
