import ApiPages.Proofs.HeaderText

/-!
# Classes with docstrings

The declaration of a class with a docstring is cut in front of the first triple quote of its source.
That is where the docstring starts if it has triple quotes itself. A docstring in single quotes is
not seen: without a triple quote behind it the class is cut at its colon, and with one the
declaration goes on over the docstring up to there.

Results:

* `beforeTripleQuote?_eq_none_iff`, `beforeTripleQuote?_append_cons`: the search for a triple quote.
* `SourceHead.beforeTripleQuote?_eq`: it passes over what stands before the colon of a class.
* `DocumentedBody.exists_cons_of_single`: it passes over the first quote of a docstring in single
  quotes.
* `SourceHead.opening_mem_declaration`: the declaration has that quote in it then.
* `SourceHead.classDeclaration_documented`: when the two ways to cut a class agree.
-/

namespace ApiPages

/-! ## Triple quotes -/

/-- The quotes that docstrings are looked for with. -/
def tripleQuotes : List (List Char) := [['"', '"', '"'], ['\'', '\'', '\'']]

/-- There is a triple quote in the text. -/
def HasTripleQuote (s : List Char) : Prop := ∃ q ∈ tripleQuotes, q <:+: s

theorem HasTripleQuote.mono {s t : List Char} (h : HasTripleQuote s) (hst : s <:+: t) :
    HasTripleQuote t := by
  obtain ⟨q, hq, hs⟩ := h
  exact ⟨q, hq, hs.trans hst⟩

theorem not_mem_of_mem_tripleQuotes {c : Char} (hc : ¬ IsQuote c) :
    ∀ q ∈ tripleQuotes, c ∉ q := by
  obtain ⟨hsingle, hdouble⟩ := not_or.mp hc
  simp [tripleQuotes, hsingle, hdouble]

theorem beforeTripleQuote?_of_starts {q s : List Char} (hq : q ∈ tripleQuotes) (h : q <+: s) :
    beforeTripleQuote? s = some [] := by
  simp only [tripleQuotes, List.mem_cons, List.not_mem_nil, or_false] at hq
  obtain ⟨r, rfl⟩ := h
  rcases hq with rfl | rfl <;> rfl

theorem beforeTripleQuote?_cons {c : Char} {s : List Char}
    (h : ∀ q ∈ tripleQuotes, ¬ q <+: c :: s) :
    beforeTripleQuote? (c :: s) = (beforeTripleQuote? s).map (c :: ·) := by
  simp only [tripleQuotes, List.forall_mem_cons, List.not_mem_nil, false_implies, implies_true,
    and_true, ← List.isPrefixOf_iff_prefix, Bool.not_eq_true] at h
  rw [beforeTripleQuote?, h.1, h.2]
  rfl

theorem beforeTripleQuote?_eq_none_iff {s : List Char} :
    beforeTripleQuote? s = none ↔ ¬ HasTripleQuote s := by
  induction s with
  | nil => simp [beforeTripleQuote?, HasTripleQuote, tripleQuotes]
  | cons c s ih =>
    by_cases h : ∃ q ∈ tripleQuotes, q <+: c :: s
    · obtain ⟨q, hq, hstarts⟩ := h
      rw [beforeTripleQuote?_of_starts hq hstarts]
      simp only [reduceCtorEq, false_iff, not_not]
      exact ⟨q, hq, hstarts.isInfix⟩
    · have hstart : ∀ q ∈ tripleQuotes, ¬ q <+: c :: s := fun q hq hstarts => h ⟨q, hq, hstarts⟩
      rw [beforeTripleQuote?_cons hstart, Option.map_eq_none_iff, ih, not_iff_not]
      refine exists_congr fun q => and_congr_right fun hq => ?_
      rw [List.infix_cons_iff, or_iff_right (hstart q hq)]

instance : DecidablePred HasTripleQuote := fun s =>
  decidable_of_iff (¬ beforeTripleQuote? s = none)
    (by rw [beforeTripleQuote?_eq_none_iff, not_not])

/-- A triple quote that starts in a text without one ends in it, if no quote follows. -/
theorem not_starts_append_cons {s : List Char} {c : Char} (hs : ¬ HasTripleQuote s)
    (hc : ¬ IsQuote c) (t : List Char) : ∀ q ∈ tripleQuotes, ¬ q <+: s ++ c :: t := by
  intro q hq hstarts
  have hshort := Text.prefix_of_append_cons (not_mem_of_mem_tripleQuotes hc q hq) hstarts
  exact hs ⟨q, hq, hshort.isInfix⟩

/-- The search passes over a text without a triple quote and the character behind it. -/
theorem beforeTripleQuote?_append_cons {s : List Char} {c : Char} (hs : ¬ HasTripleQuote s)
    (hc : ¬ IsQuote c) (t : List Char) :
    beforeTripleQuote? (s ++ c :: t) = (beforeTripleQuote? t).map (s ++ c :: ·) := by
  induction s with
  | nil => exact beforeTripleQuote?_cons (not_starts_append_cons hs hc t)
  | cons x s ih =>
    have hrest : ¬ HasTripleQuote s := fun h => hs (h.mono (List.suffix_cons x s).isInfix)
    have hstart := not_starts_append_cons hs hc t
    rw [List.cons_append] at hstart ⊢
    rw [beforeTripleQuote?_cons hstart, ih hrest, Option.map_map]
    rfl

theorem beforeTripleQuote?_append {s : List Char} (hs : ∀ c ∈ s, ¬ IsQuote c) (t : List Char) :
    beforeTripleQuote? (s ++ t) = (beforeTripleQuote? t).map (s ++ ·) := by
  induction s with
  | nil => simp
  | cons c s ih =>
    obtain ⟨hc, hs⟩ := List.forall_mem_cons.mp hs
    have hnone : ¬ HasTripleQuote [] := by decide
    have hstep := beforeTripleQuote?_append_cons hnone hc (s ++ t)
    rw [List.nil_append] at hstep
    rw [List.cons_append, hstep, ih hs, Option.map_map]
    rfl

theorem beforeTripleQuote?_flatten_append {ls : List (List Char)} (hls : ∀ l ∈ ls, Text.IsLine l)
    (hfree : ∀ l ∈ ls, ¬ HasTripleQuote l) (t : List Char) :
    beforeTripleQuote? (ls.flatten ++ t) = (beforeTripleQuote? t).map (ls.flatten ++ ·) := by
  induction ls with
  | nil => simp
  | cons l ls ih =>
    obtain ⟨⟨text, -, rfl⟩, hlines⟩ := List.forall_mem_cons.mp hls
    obtain ⟨hline, hrest⟩ := List.forall_mem_cons.mp hfree
    have htext : ¬ HasTripleQuote text := fun h =>
      hline (h.mono (List.prefix_append _ _).isInfix)
    rw [List.flatten_cons, List.append_assoc, List.append_assoc, List.singleton_append,
      beforeTripleQuote?_append_cons htext (by decide), ih hlines hrest, Option.map_map]
    simp [Function.comp_def]

theorem not_isQuote_of_isBlank {c : Char} (h : Text.isBlank c = true) : ¬ IsQuote c := by
  rintro (rfl | rfl) <;> revert h <;> decide

/-- The search passes over what stands before the colon of a declaration. -/
theorem SourceHead.beforeTripleQuote?_eq {keywords : List String} (s : SourceHead keywords)
    (hbefore : ∀ l ∈ s.before, ¬ HasTripleQuote l) (hheader : ¬ HasTripleQuote s.header)
    (rest : List Char) :
    beforeTripleQuote? (s.text ++ ':' :: rest) =
      (beforeTripleQuote? rest).map (s.text ++ ':' :: ·) := by
  have hindent : ∀ c ∈ s.indent, ¬ IsQuote c := fun c hc =>
    not_isQuote_of_isBlank (List.all_eq_true.mp s.indent_blank c hc)
  rw [text, List.append_assoc, List.append_assoc,
    beforeTripleQuote?_flatten_append s.isLine_of_mem hbefore, beforeTripleQuote?_append hindent,
    beforeTripleQuote?_append_cons hheader (by decide)]
  simp [Function.comp_def]

/-! ## Bodies with a docstring -/

/-- The body of a class: a docstring behind blanks, and what follows it. Between triple quotes the
docstring may have anything in it. -/
structure DocumentedBody where
  blanks : List Char
  /-- The letters in front of the literal. -/
  letters : List Char
  quote : Char
  /-- There are three quotes on either side of the docstring. -/
  triple : Bool
  /-- What stands between the quotes. -/
  doc : List Char
  further : List Char
  isBlankLine_blanks : Text.isBlankLine blanks = true
  isLetter : ∀ c ∈ letters, c ∈ "rRuUbBfF".toList
  isQuote : IsQuote quote
  isQuoted : triple = false → QuotedText quote doc
  ends : ∀ c ∈ further.head?, c ≠ quote

/-- Two quotes in a row are all of a literal, and no third one follows them. -/
theorem QuotedText.not_starts_twice {q : Char} {s t : List Char} (hs : QuotedText q s)
    (hq : IsQuote q) (ht : ∀ c ∈ t.head?, c ≠ q) : ¬ [q, q] <+: s ++ q :: t := by
  intro h
  cases hs with
  | nil =>
    obtain ⟨-, u, hu⟩ := List.cons_prefix_cons.mp h
    exact ht q (by simp [← hu]) rfl
  | plain hquote => exact hquote (List.cons_prefix_cons.mp h).1.symm
  | escaped =>
    have hescape := (List.cons_prefix_cons.mp h).1
    rw [hescape] at hq
    exact absurd hq (by decide)

namespace DocumentedBody

variable (b : DocumentedBody)

/-- The quotes on either side. -/
def quotes : List Char := if b.triple then [b.quote, b.quote, b.quote] else [b.quote]

/-- The docstring in its quotes. -/
def literal : List Char := b.quotes ++ b.doc ++ b.quotes

/-- All of it. -/
def text : List Char := b.blanks ++ b.letters ++ b.literal ++ b.further

theorem beforeTripleQuote?_text :
    beforeTripleQuote? b.text =
      (beforeTripleQuote? (b.literal ++ b.further)).map (b.blanks ++ b.letters ++ ·) := by
  have hfree : ∀ c ∈ b.blanks ++ b.letters, ¬ IsQuote c := by
    intro c hc
    rcases List.mem_append.mp hc with hblank | hletter
    · exact not_isQuote_of_isBlank (List.all_eq_true.mp b.isBlankLine_blanks c hblank)
    · rintro (rfl | rfl) <;> exact absurd (b.isLetter _ hletter) (by decide)
  rw [text, List.append_assoc, beforeTripleQuote?_append hfree]

theorem beforeTripleQuote?_literal_of_triple (h : b.triple = true) :
    beforeTripleQuote? (b.literal ++ b.further) = some [] := by
  have hquote : [b.quote, b.quote, b.quote] ∈ tripleQuotes := by
    rcases b.isQuote with hq | hq <;> rw [hq] <;> decide
  refine beforeTripleQuote?_of_starts hquote ?_
  rw [literal, quotes, if_pos h, List.append_assoc, List.append_assoc]
  exact List.prefix_append _ _

theorem literal_of_single (h : b.triple = false) :
    b.literal ++ b.further = b.quote :: (b.doc ++ b.quote :: b.further) := by
  simp [literal, quotes, h]

/-- A docstring in single quotes does not start with a triple quote. -/
theorem not_starts_literal (h : b.triple = false) :
    ∀ q ∈ tripleQuotes, ¬ q <+: b.literal ++ b.further := by
  intro q hq hstarts
  obtain ⟨x, rfl⟩ : ∃ x, q = [x, x, x] := by
    simp only [tripleQuotes, List.mem_cons, List.not_mem_nil, or_false] at hq
    rcases hq with rfl | rfl
    · exact ⟨_, rfl⟩
    · exact ⟨_, rfl⟩
  rw [b.literal_of_single h] at hstarts
  obtain ⟨rfl, hsecond⟩ := List.cons_prefix_cons.mp hstarts
  exact (b.isQuoted h).not_starts_twice b.isQuote b.ends hsecond

theorem exists_cons_of_single (h : b.triple = false) {before : List Char}
    (hbefore : beforeTripleQuote? (b.literal ++ b.further) = some before) :
    ∃ r, before = b.quote :: r := by
  have hstart := b.not_starts_literal h
  rw [b.literal_of_single h] at hbefore hstart
  rw [beforeTripleQuote?_cons hstart, Option.map_eq_some_iff] at hbefore
  obtain ⟨r, -, hr⟩ := hbefore
  exact ⟨r, hr.symm⟩

end DocumentedBody

/-! ## Declarations of classes with docstrings -/

theorem isLiteralLetter_of_isBlank {c : Char} (h : Text.isBlank c = true) :
    isLiteralLetter c = false := by
  have hletters : "rRuUbBfF".toList.all (fun x => !Text.isBlank x) = true := rfl
  rw [isLiteralLetter, Bool.eq_false_iff, ne_eq, List.contains_iff_mem]
  intro hc
  have hletter := List.all_eq_true.mp hletters c hc
  rw [h] at hletter
  cases hletter

theorem classDeclaration_of_none {source : List Char} (h : beforeTripleQuote? source = none) :
    classDeclaration source true = classDeclaration source false := by
  simp [classDeclaration, beforeDocstring?, h]

theorem classDeclaration_of_some {source before : List Char}
    (h : beforeTripleQuote? source = some before) :
    classDeclaration source true =
      Text.trimEnd (dropColon (Text.trimEnd (Text.dropEndWhile isLiteralLetter before))) := by
  simp [classDeclaration, beforeDocstring?, h]

theorem prefix_dropColon {k s : List Char} (hlast : ∀ c ∈ k.getLast?, c ≠ ':') (h : k <+: s) :
    k <+: dropColon s := by
  rw [dropColon]
  cases hend : Text.beforeEnd [':'] s with
  | none => exact h
  | some r =>
    rw [Text.beforeEnd_eq_some_iff] at hend
    rw [hend, List.prefix_concat_iff] at h
    rcases h with rfl | h
    · exact absurd rfl (hlast ':' (by simp))
    · exact h

namespace SourceHead

variable (s : SourceHead ["class "]) (b : DocumentedBody)

/-- A docstring with triple quotes is cut off with the colon in front of it. -/
theorem classDeclaration_of_triple
    (h : beforeTripleQuote? (s.text ++ ':' :: b.text) =
      some (s.text ++ ':' :: (b.blanks ++ b.letters))) :
    classDeclaration (s.text ++ ':' :: b.text) true = Text.trimEnd s.text := by
  have hletters : ∀ c ∈ b.letters, isLiteralLetter c = true := fun c hc =>
    List.contains_iff_mem.mpr (b.isLetter c hc)
  have hblanks : ∀ c ∈ (s.text ++ ':' :: b.blanks).getLast?, isLiteralLetter c = false := by
    intro c hc
    rw [List.getLast?_append_of_ne_nil _ (List.cons_ne_nil _ _)] at hc
    rcases List.mem_cons.mp (List.mem_of_getLast? hc) with rfl | hblank
    · rfl
    · exact isLiteralLetter_of_isBlank (List.all_eq_true.mp b.isBlankLine_blanks c hblank)
  have hcolon : ∀ c ∈ (s.text.concat ':').getLast?, Text.isBlank c = false := by
    rw [List.concat_eq_append, List.getLast?_concat]
    exact Text.notBlank_iff.mp rfl
  have htrim : Text.trimEnd (s.text ++ ':' :: b.blanks) = s.text ++ [':'] := by
    rw [← List.concat_append, Text.trimEnd,
      Text.dropEndWhile_append_of_all _ (List.all_eq_true.mp b.isBlankLine_blanks),
      Text.dropEndWhile_of_getLast? hcolon, List.concat_eq_append]
  rw [classDeclaration_of_some h, ← List.cons_append, ← List.append_assoc,
    Text.dropEndWhile_append_of_all _ hletters, Text.dropEndWhile_of_getLast? hblanks, htrim,
    dropColon_append]

/-- A declaration that is cut behind the first quote of a docstring has that quote in it. -/
theorem opening_mem_declaration {r : List Char}
    (h : beforeTripleQuote? (s.text ++ ':' :: b.text) =
      some (s.text ++ ':' :: (b.blanks ++ b.letters ++ b.quote :: r))) :
    s.text ++ ':' :: (b.blanks ++ b.letters ++ [b.quote]) <+:
      classDeclaration (s.text ++ ':' :: b.text) true := by
  have hquote : ∀ p : Char → Prop, (∀ q, IsQuote q → p q) →
      ∀ c ∈ (s.text ++ ':' :: (b.blanks ++ b.letters ++ [b.quote])).getLast?, p c := by
    intro p hp c hc
    rw [← List.cons_append, ← List.append_assoc, List.getLast?_concat, Option.mem_some] at hc
    exact hc ▸ hp b.quote b.isQuote
  rw [classDeclaration_of_some h]
  refine Text.prefix_dropEndWhile (hquote _ ?_) (prefix_dropColon (hquote _ ?_)
    (Text.prefix_dropEndWhile (hquote _ ?_) (Text.prefix_dropEndWhile (hquote _ ?_) ?_)))
  · rintro q (rfl | rfl) <;> rfl
  · rintro q (rfl | rfl) <;> decide
  · rintro q (rfl | rfl) <;> rfl
  · rintro q (rfl | rfl) <;> rfl
  · exact ⟨r, by simp⟩

/-- A class with a docstring is declared up to its colon if its docstring has triple quotes or no
triple quote follows at all. Otherwise its declaration does not end there. -/
theorem classDeclaration_documented (hbefore : ∀ l ∈ s.before, ¬ HasTripleQuote l)
    (hheader : ¬ HasTripleQuote s.header) :
    classDeclaration (s.text ++ ':' :: b.text) false = Text.trimEnd s.text ∧
    (classDeclaration (s.text ++ ':' :: b.text) true = Text.trimEnd s.text ↔
      b.triple = true ∨ ¬ HasTripleQuote (b.literal ++ b.further)) := by
  have hcolon := s.classDeclaration_eq b.text
  have hsearch := s.beforeTripleQuote?_eq hbefore hheader b.text
  rw [b.beforeTripleQuote?_text, Option.map_map] at hsearch
  refine ⟨hcolon, ?_⟩
  cases htriple : b.triple with
  | true =>
    rw [b.beforeTripleQuote?_literal_of_triple htriple] at hsearch
    refine iff_of_true (s.classDeclaration_of_triple b ?_) (Or.inl rfl)
    simpa using hsearch
  | false =>
    rw [← beforeTripleQuote?_eq_none_iff]
    cases hfound : beforeTripleQuote? (b.literal ++ b.further) with
    | none =>
      rw [hfound] at hsearch
      exact iff_of_true ((classDeclaration_of_none hsearch).trans hcolon) (Or.inr rfl)
    | some before =>
      obtain ⟨r, rfl⟩ := b.exists_cons_of_single htriple hfound
      rw [hfound] at hsearch
      have hopening := s.opening_mem_declaration b hsearch
      refine iff_of_false (fun heq => ?_) (by simp)
      rw [heq] at hopening
      have hlong := (hopening.trans (Text.dropEndWhile_prefix _ _)).length_le
      simp only [List.length_append, List.length_cons, List.length_nil] at hlong
      omega

/-- A class without bases. -/
def plainClass : SourceHead ["class "] where
  before := []
  indent := []
  header := "class A".toList
  isLine_of_mem := List.forall_mem_nil _
  noKeyword := List.forall_mem_nil _
  indent_blank := rfl
  newline_not_mem_indent := List.not_mem_nil
  isHeader := List.append_nil "class A".toList ▸ HeaderText.nil.plainText _ rfl
  starts := ⟨"class ", List.mem_singleton_self _, by decide⟩

end SourceHead

namespace DocumentedBody

/-- A docstring in one or in three quotes above a method with a docstring. -/
def aboveMethod (triple : Bool) : DocumentedBody where
  blanks := "\n    ".toList
  letters := []
  quote := '\''
  triple := triple
  doc := ['D', 'o', 'c', '.']
  further := "\n    def f(self):\n        \"\"\"M.\"\"\"".toList
  isBlankLine_blanks := rfl
  isLetter := List.forall_mem_nil _
  isQuote := Or.inl rfl
  isQuoted := fun _ =>
    .plain (by decide) (by decide) <| .plain (by decide) (by decide) <|
      .plain (by decide) (by decide) <| .plain (by decide) (by decide) .nil
  ends := by
    rintro c ⟨⟩
    decide

end DocumentedBody

namespace SourceHead

/-- With triple quotes around its docstring the class is declared up to its colon. -/
theorem plainClass_cut :
    classDeclaration
        "class A:\n    '''Doc.'''\n    def f(self):\n        \"\"\"M.\"\"\"".toList true =
      "class A".toList := by
  have h := plainClass.classDeclaration_documented (.aboveMethod true) (by decide) (by decide)
  convert h.2.mpr (Or.inl rfl) using 1 <;> decide +kernel

/-- With single quotes around its docstring the class is declared up to the docstring of its
method. -/
theorem plainClass_not_cut :
    plainClass.before = [] ∧ ¬ HasTripleQuote plainClass.header ∧
    plainClass.text ++ ':' :: (DocumentedBody.aboveMethod false).text =
      "class A:\n    'Doc.'\n    def f(self):\n        \"\"\"M.\"\"\"".toList ∧
    classDeclaration (plainClass.text ++ ':' :: (DocumentedBody.aboveMethod false).text) true =
      "class A:\n    'Doc.'\n    def f(self)".toList ∧
    classDeclaration (plainClass.text ++ ':' :: (DocumentedBody.aboveMethod false).text) false =
      "class A".toList ∧
    classDeclaration (plainClass.text ++ ':' :: (DocumentedBody.aboveMethod false).text) true ≠
      Text.trimEnd plainClass.text := by
  refine ⟨rfl, by decide, ?_, ?_, ?_, ?_⟩ <;> decide +kernel

end SourceHead

end ApiPages
