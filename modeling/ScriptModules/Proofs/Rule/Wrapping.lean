import ScriptModules.Proofs.Rule.Unwrapping

/-!
# Wrapping and unwrapping

A wrapper around a body is its head, with blanks before it, and its end. The head is found where it
stands, as only blanks come before it, and the end is found where it stands, as no earlier brace
starts an end that reaches to the end of the text. So the rules give every body back, whatever
stands in it: other wrappers, braces and calls that look like an end.
-/

namespace ScriptModules.Rule

open Text

/-- A wrapper as it may be written around a body: blanks may stand between its tokens, but not
between the braces of its default. -/
structure Wrapper where
  lead : List Char
  opener : List Char
  closer : Closer
  closing : List Char
  blank : AllBlank lead
  opens : WrittenOpener opener
  closes : WrittenCloser closer [] closing

namespace Wrapper

/-- The body in its wrapper. -/
def around (w : Wrapper) (body : List Char) : List Char :=
  w.lead ++ (w.opener ++ (body ++ w.closing))

/-- The first rule takes the head off and leaves the body and the end. -/
theorem apply_opener_around (w : Wrapper) (body : List Char) :
    (removing wrapperOpener).onlyFirst.apply (w.around body) =
      .ok ((w.lead ++ body) ++ w.closing) := by
  rw [List.append_assoc]
  exact apply_opener w.blank w.opens _

/-- The second rule puts a line break in the place of the end, wherever an end seems to stand before
it. -/
theorem apply_closer_after (w : Wrapper) (front : List Char) :
    (replacing w.closer.pattern "\n").onlyFirst.apply (front ++ w.closing) =
      .ok (front ++ ['\n']) := by
  simpa using apply_closer w.closes front

end Wrapper

/-- The rules for a wrapped body take the wrapper off, for every body: the way in which it ends is
found out, and the blanks before the wrapper, the body and a line break are left. -/
theorem unwrapping_around (w : Wrapper) (body : List Char) :
    closerOf (w.around body) = .ok (some w.closer) ∧
      applyAll (unwrapping w.closer) (w.around body) = .ok (w.lead ++ body ++ ['\n']) := by
  constructor
  · exact closerOf_eq w.blank w.opens w.closes
  · calc applyAll (unwrapping w.closer) (w.around body)
        = (removing wrapperOpener).onlyFirst.apply (w.around body) >>=
            applyAll [(replacing w.closer.pattern "\n").onlyFirst] := applyAll_cons _ _ _
      _ = applyAll [(replacing w.closer.pattern "\n").onlyFirst]
        ((w.lead ++ body) ++ w.closing) := by
          rw [w.apply_opener_around]
          rfl
      _ = (replacing w.closer.pattern "\n").onlyFirst.apply ((w.lead ++ body) ++ w.closing) >>=
        applyAll [] :=
          applyAll_cons _ _ _
      _ = .ok (w.lead ++ body ++ ['\n']) := by
          rw [w.apply_closer_after]
          rfl

/-- A wrapper that is called inside its parentheses, with blanks between most of its tokens. -/
def insideWrapper : Wrapper where
  lead := "\n ".toList
  opener := sampleHead
  closer := .inside
  closing := "\x7d\t( $ ) \n) ;\n\n".toList
  blank := List.all_eq_true.mp (by decide)
  opens := writtenOpener_sampleHead
  closes := by
    have htext : "\x7d\t( $ ) \n) ;\n\n".toList =
        '\x7d' :: ("\t".toList ++ '(' :: (" ".toList ++ ("$".toList ++
        (" ".toList ++
          ')' :: (" \n".toList ++ ')' :: (" ".toList ++ ([';'] ++ "\n\n".toList))))))) := by decide
    have hname : ∀ x ∈ "$".toList, isIdent x = true := List.all_eq_true.mp (by decide)
    have hblank : AllBlank " ".toList := List.all_eq_true.mp (by decide)
    rw [htext]
    exact .inside (List.all_eq_true.mp (by decide)) hblank hname hblank
      (List.all_eq_true.mp (by decide))
      (.intro hblank (.inr rfl) (List.all_eq_true.mp (by decide)))

/-- A body with a wrapper in it, a call that looks like an end and an open brace. -/
def lookalikeBody : List Char :=
  "(function () \x7b \x7d)();\n\x7d(a)); \x7b \x7d)(b || \x7b\x7d".toList

theorem unwrapping_around_lookalikes :
    closerOf (insideWrapper.around lookalikeBody) = .ok (some .inside) ∧
      applyAll (unwrapping .inside) (insideWrapper.around lookalikeBody) =
        .ok "\n (function () \x7b \x7d)();\n\x7d(a)); \x7b \x7d)(b || \x7b\x7d\n".toList := by
  obtain ⟨hfound, hrest⟩ := unwrapping_around insideWrapper lookalikeBody
  exact ⟨hfound, hrest.trans (by decide)⟩

end ScriptModules.Rule
