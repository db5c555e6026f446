import ScriptModules.Script.Segment
import ScriptModules.Proofs.Text.Pieces
import Mathlib.Data.List.Infix

/-!
# Scripts made of complete lexemes

A lexeme is a segment that is complete as it stands: a quoted piece, a comment or a regular
expression literal is closed, a word is not empty, and a mark is any other single character. A
script is lexed when its lexemes stand where a reader expects them; cutting its text into segments
then gives the lexemes back, and without its comments the script is the text of all other lexemes.
-/

namespace ScriptModules.Script

/-- The inside of a closed quoted piece. A line feed stands in it only after a backslash or between
back quotes. -/
inductive QuotedBody (quote : Char) : List Char → Prop where
  | nil : QuotedBody quote []
  | escape (c : Char) {rest : List Char} : QuotedBody quote rest →
      QuotedBody quote ('\\' :: c :: rest)
  | char {c : Char} {rest : List Char} : c ≠ quote → c ≠ '\\' → (c = '\n' → quote = '\x60') →
      QuotedBody quote rest → QuotedBody quote (c :: rest)

/-- The inside of a closed regular expression literal, from a place inside or outside brackets on. A
slash stands in it only inside brackets or after a backslash, a line feed only after a backslash. -/
inductive RegexBody : Bool → List Char → Prop where
  | nil : RegexBody false []
  | escape (inClass : Bool) (c : Char) {rest : List Char} :
      RegexBody inClass rest → RegexBody inClass ('\\' :: c :: rest)
  | openClass (inClass : Bool) {rest : List Char} :
      RegexBody true rest → RegexBody inClass ('[' :: rest)
  | closeClass (inClass : Bool) {rest : List Char} :
      RegexBody false rest → RegexBody inClass (']' :: rest)
  | char {inClass : Bool} {c : Char} {rest : List Char} :
      c ∉ ['\\', '\n', '[', ']'] → (c = '/' → inClass = true) →
      RegexBody inClass rest → RegexBody inClass (c :: rest)

/-- The segments that are complete as they stand. -/
inductive IsLexeme : Segment → Prop where
  | word {w : List Char} : w ≠ [] → (∀ c ∈ w, Text.isIdent c = true) → IsLexeme ⟨.word, w⟩
  | quoted {quote : Char} {body : List Char} : isQuote quote = true → QuotedBody quote body →
      IsLexeme ⟨.quoted, quote :: (body ++ [quote])⟩
  | lineComment {body : List Char} : '\n' ∉ body → IsLexeme ⟨.lineComment, '/' :: '/' :: body⟩
  | blockComment {body : List Char} : ¬ ['*', '/'] <:+: body →
      IsLexeme ⟨.blockComment, '/' :: '*' :: (body ++ ['*', '/'])⟩
  | regex {c : Char} {body : List Char} : c ≠ '/' → c ≠ '*' → RegexBody false (c :: body) →
      IsLexeme ⟨.regex, '/' :: (c :: body ++ ['/'])⟩
  | mark {c : Char} : Text.isIdent c = false → isQuote c = false → IsLexeme ⟨.mark, [c]⟩

/-- The lexeme of one character that is no part of any other. -/
def Segment.ofMark (c : Char) : Segment := ⟨.mark, [c]⟩

/-- A slash looks past comments and blanks. -/
def Segment.isPassedOver (s : Segment) : Bool :=
  s.isComment || (s.kind == .mark && s.text.all Text.isBlank)

/-- The last token before a place: neither a comment nor a blank. -/
def lastToken (before : List Segment) : Option Segment :=
  (before.filter (!·.isPassedOver)).getLast?

/-- After this token an operand is due: there is no token, or it is one of the listed marks or
words. -/
def operandDue : Option Segment → Bool
  | none => true
  | some ⟨.mark, [c]⟩ => operandMarks.contains c
  | some ⟨.word, w⟩ => operandWords.contains (String.ofList w)
  | some _ => false

/-- The text starts neither with a slash nor with a star. -/
def NoComment (text : List Char) : Prop := text.head? ≠ some '/' ∧ text.head? ≠ some '*'

/-- The lexeme can stand between the lexemes before and after it. -/
structure Placed (before : List Segment) (s : Segment) (after : List Segment) : Prop where
  word : s.kind = .word → ∀ t ∈ after.head?, t.kind ≠ .word
  line : s.kind = .lineComment → ∀ t ∈ after.head?, t = .ofMark '\n'
  regex : s.kind = .regex → operandDue (lastToken before) = true
  slash : s = .ofMark '/' → operandDue (lastToken before) = false ∧
    NoComment (after.flatMap (·.text))

/-- Complete lexemes, each in a place where it can stand. -/
structure Lexed (lexemes : List Segment) : Prop where
  closed : ∀ s ∈ lexemes, IsLexeme s
  placed : ∀ before s after, lexemes = before ++ s :: after → Placed before s after

instance (text : List Char) : Decidable (NoComment text) := inferInstanceAs (Decidable (_ ∧ _))

instance (before : List Segment) (s : Segment) (after : List Segment) :
    Decidable (Placed before s after) :=
  decidable_of_iff
    ((s.kind = .word → ∀ t ∈ after.head?, t.kind ≠ .word) ∧
      (s.kind = .lineComment → ∀ t ∈ after.head?, t = .ofMark '\n') ∧
      (s.kind = .regex → operandDue (lastToken before) = true) ∧
      (s = .ofMark '/' → operandDue (lastToken before) = false ∧
        NoComment (after.flatMap (·.text))))
    ⟨fun ⟨word, line, regex, slash⟩ => ⟨word, line, regex, slash⟩,
      fun ⟨word, line, regex, slash⟩ => ⟨word, line, regex, slash⟩⟩

/-- Places can be checked one index after the other. -/
theorem placed_of_index {lexemes : List Segment}
    (h : ∀ i : Fin lexemes.length, Placed (lexemes.take i) (lexemes.get i) (lexemes.drop (i + 1)))
    (before : List Segment) (s : Segment) (after : List Segment)
    (hsplit : lexemes = before ++ s :: after) :
    Placed before s after := by
  subst hsplit
  simpa using h ⟨before.length, by simp⟩

theorem isQuote_iff {c : Char} : isQuote c = true ↔ c = '\x27' ∨ c = '"' ∨ c = '\x60' := by
  simp [isQuote, or_assoc]

theorem isIdent_quote {c : Char} (h : isQuote c = true) : Text.isIdent c = false := by
  rcases isQuote_iff.mp h with rfl | rfl | rfl <;> decide

theorem cutQuoted_closed {quote : Char} {body : List Char} (hq : isQuote quote = true)
    (h : QuotedBody quote body) (rest : List Char) :
    cutQuoted quote (body ++ quote :: rest) = (body ++ [quote], rest) := by
  have hquote : quote ≠ '\\' := by
    rintro rfl
    simp [isQuote] at hq
  induction h with
  | nil =>
      rw [List.nil_append, cutQuoted]
      · simp
      · simp [hquote]
      · simp [hquote]
  | escape c _ ih => simp [cutQuoted, ih]
  | @char c _ hne hback hline _ ih =>
      rw [List.cons_append, cutQuoted]
      · have hopen : ¬ (c = '\n' ∧ quote ≠ '\x60') := fun h => h.2 (hline h.1)
        simp [hne, hopen, ih]
      · simp [hback]
      · simp [hback]

theorem cutRegex_closed {inClass : Bool} {body : List Char} (h : RegexBody inClass body)
    (rest : List Char) : cutRegex inClass (body ++ '/' :: rest) = (body ++ ['/'], rest) := by
  induction h with
  | nil => simp [cutRegex]
  | escape inClass c _ ih => simp [cutRegex, ih]
  | openClass inClass _ ih => simp [cutRegex, ih]
  | closeClass inClass _ ih => simp [cutRegex, ih]
  | @char inClass c _ hc hslash _ ih =>
      simp only [List.mem_cons, List.not_mem_nil, or_false, not_or] at hc
      obtain ⟨hback, hline, hopen, hclose⟩ := hc
      rw [List.cons_append, cutRegex]
      · have hends : ¬ (c = '/' ∧ inClass = false) := by
          rintro ⟨rfl, hout⟩
          simp [hslash rfl] at hout
        have hstays : (c == '[' || (inClass && c != ']')) = inClass := by
          rw [beq_eq_false_iff_ne.mpr hopen, bne_iff_ne.mpr hclose, Bool.false_or, Bool.and_true]
        simp [hline, hends, hstays, ih]
      · simp [hback]
      · simp [hback]

theorem cutBlock_closed {body : List Char} (h : ¬ ['*', '/'] <:+: body) (rest : List Char) :
    cutBlock (body ++ '*' :: '/' :: rest) = (body ++ ['*', '/'], rest) := by
  induction body with
  | nil => simp [cutBlock]
  | cons c body ih =>
      have htail : ¬ ['*', '/'] <:+: body :=
        fun hin => h (hin.trans (List.suffix_cons c body).isInfix)
      have hnext : ∀ tail, c :: (body ++ '*' :: '/' :: rest) ≠ '*' :: '/' :: tail := by
        intro tail heq
        -- the star would stand before a slash of the body, or right before the closing star
        cases body with
        | nil => simp at heq
        | cons d body =>
            simp only [List.cons_append, List.cons.injEq] at heq
            obtain ⟨rfl, rfl, -⟩ := heq
            exact h ⟨[], body, rfl⟩
      rw [List.cons_append, cutBlock]
      · simp [ih htail]
      · intro tail hc heq
        exact hnext tail (by rw [hc, heq])

/-- What can follow a segment so that the cut ends there, given what stands before it. -/
structure Fits (before : Before) (s : Segment) (rest : List Char) : Prop where
  word : s.kind = .word → ∀ c ∈ rest.head?, Text.isIdent c = false
  line : s.kind = .lineComment → ∀ c ∈ rest.head?, c = '\n'
  regex : s.kind = .regex → before.opensRegex = true
  slash : s = .ofMark '/' → before.opensRegex = false ∧ NoComment rest

/-- A complete lexeme that fits its place is cut off as it stands. -/
theorem cut_lexeme {before : Before} {s : Segment} {rest tail : List Char} {c : Char}
    (hs : IsLexeme s) (hfits : Fits before s rest) (htext : s.text ++ rest = c :: tail) :
    cut before c tail = (s, rest) := by
  have hslash : Text.isIdent '/' = false := by decide
  cases hs with
  | @word w hne hw =>
      obtain ⟨d, w, rfl⟩ := List.exists_cons_of_ne_nil hne
      simp only [List.cons_append, List.cons.injEq] at htext
      obtain ⟨rfl, rfl⟩ := htext
      have hd : Text.isIdent d = true := hw d (by simp)
      have hw' : ∀ c ∈ w, Text.isIdent c = true := fun c hc => hw c (by simp [hc])
      have hquote : isQuote d = false := by
        cases hq : isQuote d with
        | false => rfl
        | true => simp [isIdent_quote hq] at hd
      have hd' : d ≠ '/' := by
        rintro rfl
        simp [hslash] at hd
      rw [cut, Text.takeWhile_append_of_head hw' (hfits.word rfl),
        Text.dropWhile_append_of_head hw' (hfits.word rfl)]
      simp [hquote, hd, hd']
  | @quoted quote body hq hbody =>
      simp only [List.cons_append, List.append_assoc, List.nil_append, List.cons.injEq] at htext
      obtain ⟨rfl, rfl⟩ := htext
      simp [cut, hq, cutQuoted_closed hq hbody]
  | @lineComment body hbody =>
      simp only [List.cons_append, List.cons.injEq] at htext
      obtain ⟨rfl, rfl⟩ := htext
      have hin : ∀ c ∈ '/' :: body, (c != '\n') = true := by
        intro c hc
        rcases List.mem_cons.mp hc with rfl | hc
        · decide
        · simpa using fun h : c = '\n' => hbody (h ▸ hc)
      have hout : ∀ c ∈ rest.head?, (c != '\n') = false := fun c hc => by simp [hfits.line rfl c hc]
      rw [cut, ← List.cons_append, Text.takeWhile_append_of_head hin hout,
        Text.dropWhile_append_of_head hin hout]
      simp [isQuote]
  | @blockComment body hbody =>
      simp only [List.cons_append, List.append_assoc, List.nil_append, List.cons.injEq] at htext
      obtain ⟨rfl, rfl⟩ := htext
      simp [cut, isQuote, cutBlock_closed hbody]
  | @regex d body hne hstar hbody =>
      simp only [List.cons_append, List.append_assoc, List.nil_append, List.cons.injEq] at htext
      obtain ⟨rfl, rfl⟩ := htext
      have hcut := cutRegex_closed hbody rest
      rw [List.cons_append] at hcut
      simp [cut, isQuote, hne, hstar, hfits.regex rfl, hcut]
  | @mark d hident hquote =>
      simp only [List.cons_append, List.nil_append, List.cons.injEq] at htext
      obtain ⟨rfl, rfl⟩ := htext
      by_cases hd : d = '/'
      · subst hd
        obtain ⟨hdue, hfirst, hstar⟩ := hfits.slash rfl
        simp [cut, hquote, hident, hdue, hfirst, hstar]
      · simp [cut, hquote, hident, hd]

/-- A lexeme that is no word starts with no character of a word. -/
theorem isIdent_head_lexeme {s : Segment} {c : Char} (hs : IsLexeme s) (hword : s.kind ≠ .word)
    (hc : c ∈ s.text.head?) : Text.isIdent c = false := by
  cases hs with
  | word _ _ => exact absurd rfl hword
  | quoted hq _ =>
      obtain rfl := Option.mem_some_iff.mp hc
      exact isIdent_quote hq
  | lineComment _ =>
      obtain rfl := Option.mem_some_iff.mp hc
      decide
  | blockComment _ =>
      obtain rfl := Option.mem_some_iff.mp hc
      decide
  | regex _ _ _ =>
      obtain rfl := Option.mem_some_iff.mp hc
      decide
  | mark hident _ =>
      obtain rfl := Option.mem_some_iff.mp hc
      exact hident

theorem text_ne_nil_of_lexeme {s : Segment} (hs : IsLexeme s) : s.text ≠ [] := by
  cases hs with
  | word hne _ => exact hne
  | _ => simp

theorem lastToken_concat (before : List Segment) (s : Segment) :
    lastToken (before ++ [s]) = if s.isPassedOver then lastToken before else some s := by
  cases h : s.isPassedOver <;> simp [lastToken, List.filter_append, h]

/-- What the cut remembers after a lexeme says whether an operand is due. -/
theorem opensRegex_next {s : Segment} (hs : IsLexeme s) (before : Before) :
    (before.next s).opensRegex = if s.isPassedOver then before.opensRegex
      else operandDue (some s) := by
  cases hs with
  | word _ _ => rfl
  | @quoted quote body hq _ =>
      have hmark : operandMarks.contains quote = false := by
        rcases isQuote_iff.mp hq with rfl | rfl | rfl <;> decide
      simpa [Before.next, Before.opensRegex, Segment.isPassedOver, Segment.isComment, operandDue]
        using hmark
  | lineComment _ => rfl
  | blockComment _ => rfl
  | regex _ _ _ =>
      have hmark : operandMarks.contains '/' = false := by decide
      simpa [Before.next, Before.opensRegex, Segment.isPassedOver, Segment.isComment, operandDue]
        using hmark
  | @mark c _ _ =>
      cases hc : Text.isBlank c <;>
        simp [Before.next, Before.opensRegex, Segment.isPassedOver, Segment.isComment,
          operandDue, hc]

/-- The memory of the cut agrees with the last token, however many comments and blanks came after
it. -/
theorem opensRegex_foldl {before : List Segment} (h : ∀ s ∈ before, IsLexeme s) :
    (before.foldl Before.next .nothing).opensRegex = operandDue (lastToken before) := by
  induction before using List.reverseRecOn with
  | nil => rfl
  | append_singleton before s ih =>
      have hs : IsLexeme s := h s (by simp)
      have hbefore := ih fun t ht => h t (by simp [ht])
      rw [List.foldl_append, List.foldl_cons, List.foldl_nil, opensRegex_next hs,
        lastToken_concat, hbefore]
      split <;> rfl

/-- In a lexed script every lexeme fits its place. -/
theorem fits_of_lexed {before after : List Segment} {s : Segment}
    (h : Lexed (before ++ s :: after)) :
    Fits (before.foldl Before.next .nothing) s (after.flatMap (·.text)) := by
  have hmemory := opensRegex_foldl fun t (ht : t ∈ before) => h.closed t (by simp [ht])
  have hplaced := h.placed before s after rfl
  constructor
  · intro hword c hc
    cases after with
    | nil => simp at hc
    | cons t after =>
        have ht : IsLexeme t := h.closed t (by simp)
        rw [List.flatMap_cons, List.head?_append_of_ne_nil _ (text_ne_nil_of_lexeme ht)] at hc
        exact isIdent_head_lexeme ht (hplaced.word hword t rfl) hc
  · intro hline c hc
    cases after with
    | nil => simp at hc
    | cons t after =>
        obtain rfl := hplaced.line hline t rfl
        simpa [Segment.ofMark, eq_comm] using hc
  · intro hregex
    rw [hmemory]
    exact hplaced.regex hregex
  · intro hslash
    rw [hmemory]
    exact hplaced.slash hslash

/-- Cutting the text from any lexeme of a lexed script on gives the lexemes from there on. -/
theorem segmentsFrom_lexed {n : Nat} {before after : List Segment} (h : Lexed (before ++ after))
    (hn : (after.flatMap (·.text)).length ≤ n) :
    segmentsFrom n (before.foldl Before.next .nothing) (after.flatMap (·.text)) = after := by
  induction after generalizing n before with
  | nil => cases n <;> rfl
  | cons s after ih =>
      have hs : IsLexeme s := h.closed s (by simp)
      obtain ⟨c, tail, htext⟩ := List.exists_cons_of_ne_nil (text_ne_nil_of_lexeme hs)
      have hcut : cut (before.foldl Before.next .nothing) c (tail ++ after.flatMap (·.text)) =
          (s, after.flatMap (·.text)) :=
        cut_lexeme hs (fits_of_lexed h) (by rw [htext, List.cons_append])
      rw [List.flatMap_cons, htext, List.cons_append] at hn ⊢
      cases n with
      | zero => simp at hn
      | succ n =>
          have hrest : Lexed ((before ++ [s]) ++ after) := by simpa using h
          have hlen : (after.flatMap (·.text)).length ≤ n := by
            simp only [List.length_cons, List.length_append] at hn
            omega
          have hafter := ih hrest hlen
          rw [List.foldl_append, List.foldl_cons, List.foldl_nil] at hafter
          rw [segmentsFrom, hcut]
          exact congrArg (s :: ·) hafter

/-- The segments of a lexed script are its lexemes. -/
theorem segments_lexed {lexemes : List Segment} (h : Lexed lexemes) :
    segments (lexemes.flatMap (·.text)) = lexemes :=
  @segmentsFrom_lexed _ [] _ h le_rfl

/-- Taking the comments off a lexed script leaves the text of all other lexemes, in order. -/
theorem stripComments_lexed {lexemes : List Segment} (h : Lexed lexemes) :
    stripComments (String.ofList (lexemes.flatMap (·.text))) =
      String.ofList ((lexemes.filter (!·.isComment)).flatMap (·.text)) := by
  rw [stripComments, withoutComments, String.toList_ofList, segments_lexed h]

/-- A keyword, a comment with a quote in it, a regular expression literal with a slash in brackets,
a division and a quoted piece that looks like a comment. -/
def mixedLexemes : List Segment :=
  [⟨.word, "return".toList⟩, ⟨.blockComment, "/* ' */".toList⟩, ⟨.regex, "/[/]/".toList⟩,
    ⟨.word, ['g']⟩,
    .ofMark ';', ⟨.word, ['a']⟩, .ofMark '/', ⟨.word, ['2']⟩, ⟨.lineComment, "//x".toList⟩,
    .ofMark '\n',
    ⟨.quoted, "\"//\"".toList⟩]

theorem lexed_mixedLexemes : Lexed mixedLexemes := by
  refine ⟨?_, placed_of_index (by decide +kernel)⟩
  have hblock : IsLexeme ⟨.blockComment, '/' :: '*' :: (" ' ".toList ++ ['*', '/'])⟩ :=
    .blockComment (by decide)
  have hregex : IsLexeme ⟨.regex, '/' :: ('[' :: ['/', ']'] ++ ['/'])⟩ :=
    .regex (by decide) (by decide)
      (.openClass _ (.char (by decide) (by decide) (.closeClass _ .nil)))
  have hline : IsLexeme ⟨.lineComment, '/' :: '/' :: ['x']⟩ := .lineComment (by decide)
  have hquoted : IsLexeme ⟨.quoted, '"' :: (['/', '/'] ++ ['"'])⟩ :=
    .quoted (by decide)
      (.char (by decide) (by decide) (by decide) (.char (by decide) (by decide) (by decide) .nil))
  simp only [mixedLexemes, List.forall_mem_cons, List.not_mem_nil, false_imp_iff,
    implies_true, and_true]
  -- `List.all` is decided along the word; the quantifier would be decided along all characters
  -- there are.
  have hword {w : List Char} (hne : w ≠ []) (hall : w.all Text.isIdent = true) :
      IsLexeme ⟨.word, w⟩ :=
    .word hne (List.all_eq_true.mp hall)
  exact ⟨hword (by decide) (by decide), hblock, hregex, hword (by decide) (by decide),
    .mark (by decide) (by decide), hword (by decide) (by decide), .mark (by decide) (by decide),
    hword (by decide) (by decide), hline, .mark (by decide) (by decide), hquoted⟩

theorem stripComments_mixedLexemes :
    Lexed mixedLexemes ∧ mixedLexemes.flatMap (·.text) =
      "return/* ' *//[/]/g;a/2//x\n\"//\"".toList ∧
      stripComments (String.ofList (mixedLexemes.flatMap (·.text))) = "return/[/]/g;a/2\n\"//\"" :=
  ⟨lexed_mixedLexemes, by decide +kernel,
    (stripComments_lexed lexed_mixedLexemes).trans (by decide +kernel)⟩

end ScriptModules.Script
