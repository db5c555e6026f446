import ScriptModules.Proofs.Script.Lexeme
import Mathlib.Data.List.TakeWhile

/-!
# Cutting a script again without its comments

Taking a comment away makes its neighbours adjacent. Only two words can grow together that way:
every other segment ends where it ended before, and what stands before a slash does not depend on
comments. So the script without its comments is cut into the segments of the script that are no
comments, unless comments stand between two words.
-/

namespace ScriptModules.Script

/-- The first segment of a text that starts with `c`, and what is left after it, by the kind of the
segment. -/
inductive CutsOff (before : Before) (c : Char) (rest : List Char) : Segment → List Char → Prop where
  | quoted : isQuote c = true →
      CutsOff before c rest ⟨.quoted, c :: (cutQuoted c rest).1⟩ (cutQuoted c rest).2
  | lineComment : c = '/' → rest.head? = some '/' →
      CutsOff before c rest ⟨.lineComment, c :: rest.takeWhile (· != '\n')⟩
        (rest.dropWhile (· != '\n'))
  | blockComment : c = '/' → rest.head? = some '*' →
      CutsOff before c rest ⟨.blockComment, c :: '*' :: (cutBlock rest.tail).1⟩
        (cutBlock rest.tail).2
  | regex : c = '/' → NoComment rest → before.opensRegex = true →
      CutsOff before c rest ⟨.regex, c :: (cutRegex false rest).1⟩ (cutRegex false rest).2
  | word : Text.isIdent c = true →
      CutsOff before c rest ⟨.word, c :: rest.takeWhile Text.isIdent⟩ (rest.dropWhile Text.isIdent)
  | mark : isQuote c = false → Text.isIdent c = false →
      (c = '/' → before.opensRegex = false ∧ NoComment rest) →
      CutsOff before c rest (.ofMark c) rest

/-- The segments that are cut off a text one after the other, given what stands before it. -/
inductive Cuts : Before → List Char → List Segment → Prop where
  | nil (before : Before) : Cuts before [] []
  | cons {before : Before} {c : Char} {rest rest' : List Char} {s : Segment} {segs : List Segment} :
      CutsOff before c rest s rest' → Cuts (before.next s) rest' segs →
        Cuts before (c :: rest) (s :: segs)

section Cuts

variable {before : Before} {c : Char} {rest rest' text : List Char} {s : Segment}
  {segs : List Segment}

theorem CutsOff.cut_eq (h : CutsOff before c rest s rest') : cut before c rest = (s, rest') := by
  have hslash : isQuote '/' = false ∧ Text.isIdent '/' = false := by decide
  cases h with
  | quoted hq => simp [cut, hq]
  | lineComment hc hrest =>
      subst hc
      simp [cut, hslash, hrest]
  | blockComment hc hrest =>
      subst hc
      simp [cut, hslash, hrest]
  | regex hc hrest hopens =>
      subst hc
      simp [cut, hslash, hrest.1, hrest.2, hopens]
  | word hword =>
      have hq : isQuote c = false := by
        cases hq : isQuote c with
        | false => rfl
        | true => simp [isIdent_quote hq] at hword
      have hc : c ≠ '/' := by
        rintro rfl
        simp [hslash] at hword
      simp [cut, hq, hc, hword]
  | mark hq hword hmark =>
      by_cases hc : c = '/'
      · obtain ⟨hopens, hrest⟩ := hmark hc
        simp [cut, hq, hword, hopens, hrest.1, hrest.2, Segment.ofMark]
      · simp [cut, hq, hword, hc, Segment.ofMark]

theorem cutsOff_cut (before : Before) (c : Char) (rest : List Char) :
    CutsOff before c rest (cut before c rest).1 (cut before c rest).2 := by
  rw [cut]
  split
  · exact .quoted ‹_›
  split
  · rename_i h
    obtain ⟨hc, hrest⟩ := Bool.and_eq_true_iff.mp h
    exact .lineComment (by simpa using hc) (by simpa using hrest)
  split
  · rename_i h
    obtain ⟨hc, hrest⟩ := Bool.and_eq_true_iff.mp h
    exact .blockComment (by simpa using hc) (by simpa using hrest)
  rename_i hq hline hblock
  have hnone (hc : c = '/') : NoComment rest :=
    ⟨fun h => hline (by simp [hc, h]), fun h => hblock (by simp [hc, h])⟩
  split
  · rename_i h
    obtain ⟨hc, hopens⟩ := Bool.and_eq_true_iff.mp h
    have hc : c = '/' := by simpa using hc
    exact .regex hc (hnone hc) hopens
  split
  · exact .word ‹_›
  · rename_i hregex hword
    refine .mark (by simpa using hq) (by simpa using hword) fun hc => ⟨?_, hnone hc⟩
    simpa [hc] using hregex

theorem CutsOff.text_append (h : CutsOff before c rest s rest') : s.text ++ rest' = c :: rest := by
  have htext := cut_text before c rest
  rwa [h.cut_eq] at htext

theorem CutsOff.exists_text (h : CutsOff before c rest s rest') : ∃ tail, s.text = c :: tail := by
  cases h with
  | _ => exact ⟨_, rfl⟩

theorem CutsOff.length_lt (h : CutsOff before c rest s rest') :
    rest'.length < (c :: rest).length := by
  obtain ⟨tail, htail⟩ := h.exists_text
  rw [← h.text_append, htail, List.length_append, List.length_cons]
  omega

theorem cuts_segmentsFrom {n : Nat} (hn : text.length ≤ n) :
    Cuts before text (segmentsFrom n before text) := by
  induction n generalizing before text with
  | zero =>
      obtain rfl := List.eq_nil_of_length_eq_zero (Nat.le_zero.mp hn)
      exact .nil before
  | succ n ih =>
      cases text with
      | nil => exact .nil before
      | cons c rest =>
          have hcut := cutsOff_cut before c rest
          have hlt := hcut.length_lt
          exact .cons hcut (ih (by omega))

theorem Cuts.segmentsFrom_eq {n : Nat} (h : Cuts before text segs) (hn : text.length ≤ n) :
    segmentsFrom n before text = segs := by
  induction h generalizing n with
  | nil before => cases n <;> rfl
  | cons hcut _ ih =>
      cases n with
      | zero => simp at hn
      | succ n =>
          have hlt := hcut.length_lt
          rw [segmentsFrom, hcut.cut_eq]
          exact congrArg (_ :: ·) (ih (by omega))

/-- The segments of a script are those that are cut off it one after the other. -/
theorem segments_eq_iff : segments text = segs ↔ Cuts .nothing text segs := by
  constructor
  · rintro rfl
    exact cuts_segmentsFrom le_rfl
  · intro h
    exact h.segmentsFrom_eq le_rfl

end Cuts

section Resumes

variable {before : Before} {c quote : Char} {inClass : Bool} {rest rest' new text : List Char}
  {s : Segment}

/-- A new text may stand in the place of the rest after a segment: it starts alike, or the rest
starts with a slash, which may open a comment that is gone. -/
def Resumes (rest new : List Char) : Prop := new.head? = rest.head? ∨ rest.head? = some '/'

theorem Resumes.nil (h : Resumes [] new) : new = [] := by
  rcases h with h | h
  · simpa using h
  · simp at h

theorem Resumes.exists_cons (h : Resumes (c :: rest) new) (hc : c ≠ '/') :
    ∃ tail, new = c :: tail := by
  rcases h with h | h
  · exact List.head?_eq_some_iff.mp h
  · exact absurd (Option.some.inj h) hc

theorem cutQuoted_cons (hc : c ≠ '\\') (rest : List Char) : cutQuoted quote (c :: rest) =
    if c == quote then ([c], rest) else if c == '\n' && quote != '\x60' then ([], c :: rest)
    else (c :: (cutQuoted quote rest).1, (cutQuoted quote rest).2) := by
  rw [cutQuoted]
  · simp [hc]
  · simp [hc]

theorem cutRegex_cons (hc : c ≠ '\\') (rest : List Char) : cutRegex inClass (c :: rest) =
    if c == '\n' then ([], c :: rest) else if c == '/' && !inClass then ([c], rest)
    else (c :: (cutRegex (c == '[' || (inClass && c != ']')) rest).1,
      (cutRegex (c == '[' || (inClass && c != ']')) rest).2) := by
  rw [cutRegex]
  · simp [hc]
  · simp [hc]

theorem ne_backslash (hend : c = '\\' → rest = [] → False)
    (hescape : ∀ d tail, c = '\\' → rest = d :: tail → False) : c ≠ '\\' := by
  rintro rfl
  cases rest with
  | nil => exact hend rfl rfl
  | cons d tail => exact hescape d tail rfl rfl

/-- A quoted piece ends where it ended: it is closed, or a line feed or the end of the text follows
it. -/
theorem cutQuoted_resumes (h : Resumes (cutQuoted quote text).2 new) :
    cutQuoted quote ((cutQuoted quote text).1 ++ new) = ((cutQuoted quote text).1, new) := by
  fun_induction cutQuoted quote text with
  | case1 => simp [h.nil, cutQuoted]
  | case2 => simp [h.nil, cutQuoted]
  | case3 c rest piece rest' hcut ih =>
      rw [hcut] at ih
      simp [cutQuoted, ih h]
  | case4 c rest hend hescape hquote => simp [cutQuoted_cons (ne_backslash hend hescape), hquote]
  | case5 c rest hend hescape hquote hline =>
      obtain ⟨hc, hquotes⟩ := Bool.and_eq_true_iff.mp hline
      obtain rfl : c = '\n' := by simpa using hc
      obtain ⟨tail, rfl⟩ := h.exists_cons (by decide)
      simp [cutQuoted_cons, hquote, hquotes]
  | case6 c rest hend hescape hquote hline piece rest' hcut ih =>
      rw [hcut] at ih
      simp [cutQuoted_cons (ne_backslash hend hescape), hquote, hline, ih h]

/-- A regular expression literal ends where it ended. -/
theorem cutRegex_resumes (h : Resumes (cutRegex inClass text).2 new) :
    cutRegex inClass ((cutRegex inClass text).1 ++ new) = ((cutRegex inClass text).1, new) := by
  fun_induction cutRegex inClass text with
  | case1 => simp [h.nil, cutRegex]
  | case2 => simp [h.nil, cutRegex]
  | case3 inClass c rest piece rest' hcut ih =>
      rw [hcut] at ih
      simp [cutRegex, ih h]
  | case4 inClass c rest hend hescape hline =>
      obtain rfl : c = '\n' := by simpa using hline
      obtain ⟨tail, rfl⟩ := h.exists_cons (by decide)
      simp [cutRegex_cons]
  | case5 inClass c rest hend hescape hline hslash =>
      simp [cutRegex_cons (ne_backslash hend hescape), hline, hslash]
  | case6 inClass c rest hend hescape hline hslash piece rest' hcut ih =>
      rw [hcut] at ih
      simp [cutRegex_cons (ne_backslash hend hescape), hline, hslash, ih h]

/-- After a slash that opens no comment, none is opened by what takes the place of the rest. -/
theorem noComment_resumes {piece : List Char} (h : NoComment (piece ++ rest))
    (hnew : Resumes rest new) :
    NoComment (piece ++ new) := by
  cases piece with
  | cons d piece => exact h
  | nil =>
      rcases hnew with hhead | hhead
      · rw [NoComment, List.nil_append, hhead]
        exact h
      · exact absurd hhead h.1

/-- A segment that is no comment is cut off again where another rest follows it, unless it is a word
that would go on. -/
theorem CutsOff.resumes (h : CutsOff before c rest s rest') (hkept : s.isComment = false)
    (hnew : Resumes rest' new) (hword : s.kind = .word → ∀ d ∈ new.head?, Text.isIdent d = false) :
    ∃ tail, s.text = c :: tail ∧ CutsOff before c (tail ++ new) s new := by
  cases h with
  | quoted hq =>
      have hagain : CutsOff before c ((cutQuoted c rest).1 ++ new) _ _ := .quoted hq
      rw [cutQuoted_resumes hnew] at hagain
      exact ⟨_, rfl, hagain⟩
  | lineComment _ _ => simp [Segment.isComment] at hkept
  | blockComment _ _ => simp [Segment.isComment] at hkept
  | regex hc hrest hopens =>
      have hrest' : NoComment ((cutRegex false rest).1 ++ new) := by
        apply noComment_resumes _ hnew
        rwa [cutRegex_text]
      have hagain := CutsOff.regex hc hrest' hopens
      rw [cutRegex_resumes hnew] at hagain
      exact ⟨_, rfl, hagain⟩
  | word hc =>
      have hident : ∀ d ∈ rest.takeWhile Text.isIdent, Text.isIdent d = true :=
        fun d hd => List.mem_takeWhile_imp hd
      have hagain : CutsOff before c (rest.takeWhile Text.isIdent ++ new) _ _ := .word hc
      rw [Text.takeWhile_append_of_head hident (hword rfl),
        Text.dropWhile_append_of_head hident (hword rfl)] at hagain
      exact ⟨_, rfl, hagain⟩
  | mark hq hident hmark =>
      refine ⟨[], rfl, .mark hq hident fun hc => ?_⟩
      obtain ⟨hopens, hrest⟩ := hmark hc
      exact ⟨hopens, @noComment_resumes _ _ [] hrest hnew⟩

end Resumes

section Words

variable {before : Before} {c : Char} {rest rest' text : List Char} {s v w : Segment}
  {segs after : List Segment}

theorem CutsOff.kind_eq_word_iff (h : CutsOff before c rest s rest') :
    s.kind = .word ↔ Text.isIdent c = true := by
  have hslash : Text.isIdent '/' = false := by decide
  cases h with
  | quoted hq => simp [isIdent_quote hq]
  | lineComment hc _ => simp [hc, hslash]
  | blockComment hc _ => simp [hc, hslash]
  | regex hc _ _ => simp [hc, hslash]
  | word hc => simp [hc]
  | mark _ hident _ => simp [Segment.ofMark, hident]

/-- A word takes all characters of a word. -/
theorem CutsOff.isIdent_head_rest (h : CutsOff before c rest s rest') (hs : s.kind = .word) :
    ∀ d ∈ rest'.head?, Text.isIdent d = false := by
  cases h with
  | word _ =>
      intro d hd
      have hstop := List.head?_dropWhile_not Text.isIdent rest
      rw [Option.mem_def.mp hd] at hstop
      simpa using hstop
  | _ => simp [Segment.ofMark] at hs

/-- What is cut off after some segments. -/
theorem Cuts.exists_of_append {front : List Segment} (h : Cuts before text (front ++ segs)) :
    ∃ before' text', Cuts before' text' segs := by
  induction front generalizing before text with
  | nil => exact ⟨before, text, h⟩
  | cons s front ih =>
      cases h with
      | cons _ hrest => exact ih hrest

/-- A segment is a word if its first character can stand in one. -/
theorem Cuts.exists_text (h : Cuts before text segs) (hs : s ∈ segs) :
    ∃ d tail, s.text = d :: tail ∧ (s.kind = .word ↔ Text.isIdent d = true) := by
  obtain ⟨front, back, rfl⟩ := List.mem_iff_append.mp hs
  obtain ⟨before', text', hcuts⟩ := h.exists_of_append
  cases hcuts with
  | cons hcut _ =>
      obtain ⟨tail, htail⟩ := hcut.exists_text
      exact ⟨_, tail, htail, hcut.kind_eq_word_iff⟩

/-- Two words never stand next to each other. -/
theorem Cuts.kind_ne_word (h : Cuts before text (w :: v :: after)) (hw : w.kind = .word) :
    v.kind ≠ .word := by
  cases h with
  | cons hcut hrest =>
      cases hrest with
      | cons hnext _ =>
          intro hv
          have hstop := hcut.isIdent_head_rest hw _ rfl
          rw [hnext.kind_eq_word_iff.mp hv] at hstop
          exact absurd hstop (by decide)

end Words

section Rescan

variable {before : Before} {text : List Char} {s : Segment} {segs : List Segment}

/-- The segments that are no comments. -/
def code (segs : List Segment) : List Segment := segs.filter (!·.isComment)

/-- Comments stand directly between two words. -/
def CommentsJoinWords (segs : List Segment) : Prop :=
  ∃ front w comments v back, segs = front ++ w :: (comments ++ v :: back) ∧ w.kind = .word ∧
    v.kind = .word ∧
    comments ≠ [] ∧ ∀ s ∈ comments, s.isComment = true

theorem next_of_isComment (before : Before) (h : s.isComment = true) : before.next s = before := by
  obtain ⟨kind, text⟩ := s
  cases kind with
  | lineComment => rfl
  | blockComment => rfl
  | _ => simp [Segment.isComment] at h

theorem commentsJoinWords_cons (h : CommentsJoinWords segs) (s : Segment) :
    CommentsJoinWords (s :: segs) := by
  obtain ⟨front, w, comments, v, back, rfl, hjoin⟩ := h
  exact ⟨s :: front, w, comments, v, back, rfl, hjoin⟩

/-- Without its comments a text starts as it did, unless it started with one. -/
theorem Cuts.resumes (h : Cuts before text segs) : Resumes text ((code segs).flatMap (·.text)) := by
  cases h with
  | nil before => exact .inl rfl
  | @cons _ c _ _ s segs hcut hrest =>
      cases hs : s.isComment with
      | false =>
          obtain ⟨tail, htail⟩ := hcut.exists_text
          left
          simp [code, hs, htail]
      | true =>
          right
          cases hcut with
          | lineComment hc _ => rw [hc, List.head?_cons]
          | blockComment hc _ => rw [hc, List.head?_cons]
          | _ => simp [Segment.isComment, Segment.ofMark] at hs

/-- The text after a word goes on with no character of a word, also without its comments, as long as
they do not stand before another word. -/
theorem isIdent_head_code (h : Cuts before text (s :: segs)) (hs : s.kind = .word)
    (hjoin : ¬ CommentsJoinWords (s :: segs)) :
    ∀ d ∈ ((code segs).flatMap (·.text)).head?, Text.isIdent d = false := by
  cases hcode : code segs with
  | nil => simp
  | cons v others =>
      obtain ⟨comments, back, rfl, hcomments, hv, -⟩ := List.filter_eq_cons_iff.mp hcode
      have hkind : v.kind ≠ .word := by
        cases comments with
        | nil => exact h.kind_ne_word hs
        | cons t comments =>
            intro hv
            exact hjoin ⟨[], s, t :: comments, v, back, rfl, hs, hv, by simp,
              by simpa using hcomments⟩
      obtain ⟨d, tail, htail, hd⟩ := h.exists_text (by simp : v ∈ s :: (comments ++ v :: back))
      simpa [htail] using mt hd.mpr hkind

/-- Without its comments a text is cut into the segments that are no comments, as long as comments
do not stand between two words. -/
theorem cuts_code (h : Cuts before text segs) (hjoin : ¬ CommentsJoinWords segs) :
    Cuts before ((code segs).flatMap (·.text)) (code segs) := by
  induction h with
  | nil before => exact .nil before
  | @cons before c rest rest' s segs hcut hrest ih =>
      have hagain := ih fun h => hjoin (commentsJoinWords_cons h s)
      cases hs : s.isComment with
      | true =>
          rw [next_of_isComment before hs] at hagain
          simpa [code, hs] using hagain
      | false =>
          have hword : s.kind = .word → ∀ d ∈ ((code segs).flatMap (·.text)).head?,
              Text.isIdent d = false :=
            fun hword => isIdent_head_code (.cons hcut hrest) hword hjoin
          obtain ⟨tail, htail, hcut'⟩ := hcut.resumes hs hrest.resumes hword
          have hcuts := Cuts.cons hcut' hagain
          simpa [code, hs, htail] using hcuts

/-- Segments between which comments joined two words are never cut off in that order. -/
theorem not_commentsJoinWords_of_cuts (h : Cuts before text (code segs)) :
    ¬ CommentsJoinWords segs := by
  rintro ⟨front, w, comments, v, back, rfl, hw, hv, -, hcomments⟩
  have hdropped : code comments = [] := by simpa [code] using hcomments
  have hnot {s : Segment} (hs : s.kind = .word) : s.isComment = false := by
    simp [Segment.isComment, hs]
  have hadjacent : code (front ++ w :: (comments ++ v :: back)) =
      code front ++ w :: v :: code back := by
    simp_all [code]
  rw [hadjacent] at h
  obtain ⟨before', text', hcuts⟩ := h.exists_of_append
  exact hcuts.kind_ne_word hw hv

/-- The script without its comments is cut into the segments of the script that are no comments
exactly if no comments stand directly between two words; taking comments away once more then changes
nothing. -/
theorem segments_stripComments_iff (text : String) :
    (segments (stripComments text).toList = code (segments text.toList) ↔
      ¬ CommentsJoinWords (segments text.toList)) ∧
    (¬ CommentsJoinWords (segments text.toList) →
      stripComments (stripComments text) = stripComments text) := by
  have hcuts : Cuts .nothing text.toList (segments text.toList) := segments_eq_iff.mp rfl
  have hstripped : (stripComments text).toList = (code (segments text.toList)).flatMap (·.text) :=
    String.toList_ofList
  have hagain (hjoin : ¬ CommentsJoinWords (segments text.toList)) :
      segments (stripComments text).toList = code (segments text.toList) := by
    rw [hstripped, segments_eq_iff]
    exact cuts_code hcuts hjoin
  refine ⟨⟨?_, hagain⟩, ?_⟩
  · intro hsame
    exact not_commentsJoinWords_of_cuts (segments_eq_iff.mp hsame)
  · intro hjoin
    have htwice : code (code (segments text.toList)) = code (segments text.toList) := by
      simp [code, List.filter_filter]
    calc stripComments (stripComments text)
        = String.ofList ((code (segments (stripComments text).toList)).flatMap (·.text)) := rfl
      _ = String.ofList ((code (segments text.toList)).flatMap (·.text)) := by
        rw [hagain hjoin, htwice]
      _ = stripComments text := rfl

/-- A comment between a word and a mark, a quoted piece and a regular expression literal that a line
feed ends, and a block comment that nothing ends. -/
def unclosedScript : String := "a/**/+ 'x//\n=/[/\n/* b"

/-- Stripping the unclosed script twice is stripping it once; the words of the other script grow
together. -/
theorem segments_stripComments_unclosed :
    ¬ CommentsJoinWords (segments unclosedScript.toList) ∧
      stripComments (stripComments unclosedScript) = "a+ 'x//\n=/[/\n" ∧
      CommentsJoinWords (segments "return/**/x".toList) ∧
      segments (stripComments "return/**/x").toList = [⟨.word, "returnx".toList⟩] := by
  have hjoin : ¬ CommentsJoinWords (segments unclosedScript.toList) :=
    (segments_stripComments_iff unclosedScript).1.mp (by decide +kernel)
  have htwice := (segments_stripComments_iff unclosedScript).2 hjoin
  refine ⟨hjoin, htwice.trans (by decide +kernel), ?_, by decide +kernel⟩
  by_contra hapart
  exact absurd ((segments_stripComments_iff _).1.mpr hapart) (by decide +kernel)

end Rescan

end ScriptModules.Script
