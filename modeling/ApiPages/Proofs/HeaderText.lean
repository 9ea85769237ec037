import ApiPages.Proofs.BlankTexts
import ApiPages.Proofs.SplitLaws
import ApiPages.SourceHeader
import Mathlib.Data.List.Basic

/-!
# Headers up to their colon

A header is a text with string literals and balanced brackets and no colon outside them. The scan
for the colon that ends a header knows only how deep it is and which quote it waits for. It passes
over a header as over a single character: it stands behind it where it stood before it, whatever
annotations, default values and literals the header has. So a declaration ends at the colon behind
its header, and not before it.

Results:

* `HeaderScan.headerFrom?_append`: the scan over a text that does not end it.
* `QuotedText.after?_eq`, `HeaderText.after?_eq`: the scan passes over a literal and over a header.
* `HeaderText.getLast?_trimEnd_ne`: no header ends with a colon.
* `SourceHead.splitAtKeyword?_eq`: the keyword of a declaration is found behind the lines in front.
* `SourceHead.functionDeclaration_append`: a function is read from its keyword on.
* `SourceHead.declaration_eq`: a declaration is what stands before the colon.
-/

namespace ApiPages

/-! ## The scan over a text -/

namespace HeaderScan

/-- The scan after a text, unless the header ends in it. -/
def after? (scan : HeaderScan) (s : List Char) : Option HeaderScan := s.foldlM step scan

@[simp] theorem after?_nil (scan : HeaderScan) : scan.after? [] = some scan := rfl

@[simp] theorem after?_cons (scan : HeaderScan) (c : Char) (s : List Char) :
    scan.after? (c :: s) = (scan.step c).bind (·.after? s) :=
  List.foldlM_cons

@[simp] theorem after?_append (scan : HeaderScan) (s t : List Char) :
    scan.after? (s ++ t) = (scan.after? s).bind (·.after? t) :=
  List.foldlM_append

/-- What the scan goes on with after a text belongs to the header behind that text. -/
theorem headerFrom?_append {scan next : HeaderScan} {s : List Char} (h : scan.after? s = some next)
    (rest : List Char) : headerFrom? scan (s ++ rest) = (headerFrom? next rest).map (s ++ ·) := by
  induction s generalizing scan with
  | nil =>
    cases h
    simp
  | cons c s ih =>
    rw [after?_cons, Option.bind_eq_some_iff] at h
    obtain ⟨mid, hstep, hmid⟩ := h
    rw [List.cons_append, headerFrom?, hstep]
    simp only [ih hmid, Option.map_map]
    rfl

end HeaderScan

/-! ## Literals, brackets and headers -/

/-- A quote of string literals. -/
def IsQuote (c : Char) : Prop := c = '\'' ∨ c = '"'

instance : DecidablePred IsQuote := fun c => inferInstanceAs (Decidable (c = '\'' ∨ c = '"'))

/-- What may stand between two quotes `q`: a quote or a backslash only behind a backslash. -/
inductive QuotedText (q : Char) : List Char → Prop
  | nil : QuotedText q []
  | plain {c : Char} {s : List Char} (hquote : c ≠ q) (hescape : c ≠ '\\') (hs : QuotedText q s) :
      QuotedText q (c :: s)
  | escaped {c : Char} {s : List Char} (hs : QuotedText q s) : QuotedText q ('\\' :: c :: s)

/-- The brackets with those that close them. -/
def brackets : List (Char × Char) := [('(', ')'), ('[', ']'), ('{', '}')]

/-- The quotes and the brackets. -/
def headerMarks : List Char := ['\'', '"', '(', ')', '[', ']', '{', '}']

/-- A plain character of a header: neither a quote nor a bracket, and a colon only inside
brackets. -/
def isPlain (inside : Bool) (c : Char) : Bool :=
  !headerMarks.contains c && (inside || c != ':')

/-- A text of plain characters, string literals and balanced groups in brackets. -/
inductive HeaderText : (inside : Bool) → List Char → Prop
  | nil {inside : Bool} : HeaderText inside []
  | plain {inside : Bool} {c : Char} {s : List Char} (hc : isPlain inside c = true)
      (hs : HeaderText inside s) : HeaderText inside (c :: s)
  | quoted {inside : Bool} {q : Char} {body s : List Char} (hq : IsQuote q)
      (hbody : QuotedText q body) (hs : HeaderText inside s) :
      HeaderText inside (q :: body ++ q :: s)
  | group {inside : Bool} {l r : Char} {body s : List Char} (hlr : (l, r) ∈ brackets)
      (hbody : HeaderText true body) (hs : HeaderText inside s) :
      HeaderText inside (l :: body ++ r :: s)

theorem QuotedText.after?_eq {q : Char} {s : List Char} (h : QuotedText q s) (d : Nat) :
    (HeaderScan.quoted d q false).after? s = some (.quoted d q false) := by
  induction h with
  | nil => rfl
  | plain hquote hescape _ ih => simp [HeaderScan.step, hquote, hescape, ih]
  | escaped _ ih => simp [HeaderScan.step, ih]

namespace HeaderScan

theorem step_plain {inside : Bool} {c : Char} {d : Nat} (hc : isPlain inside c = true)
    (hd : inside = true → 0 < d) : (code d).step c = some (code d) := by
  simp only [isPlain, headerMarks, Bool.and_eq_true, Bool.not_eq_true', List.contains_eq_mem,
    decide_eq_false_iff_not, List.mem_cons, List.not_mem_nil, or_false, not_or, Bool.or_eq_true,
    bne_iff_ne, ne_eq] at hc
  obtain ⟨hmark, hcolon⟩ := hc
  have hend : ¬ (c = ':' ∧ d = 0) := by
    rintro ⟨rfl, rfl⟩
    rcases hcolon with hinside | hne
    · exact absurd (hd hinside) (Nat.lt_irrefl 0)
    · exact hne rfl
  simp [step, hmark, hend]

theorem step_quote {q : Char} (hq : IsQuote q) (d : Nat) :
    (code d).step q = some (quoted d q false) := by
  rcases hq with rfl | rfl <;> rfl

theorem step_endQuote {q : Char} (hq : IsQuote q) (d : Nat) :
    (quoted d q false).step q = some (code d) := by
  rcases hq with rfl | rfl <;> rfl

theorem step_bracket {l r : Char} (hlr : (l, r) ∈ brackets) (d : Nat) :
    (code d).step l = some (code (d + 1)) ∧ (code (d + 1)).step r = some (code d) := by
  simp only [brackets, List.mem_cons, Prod.mk.injEq, List.not_mem_nil, or_false] at hlr
  rcases hlr with ⟨rfl, rfl⟩ | ⟨rfl, rfl⟩ | ⟨rfl, rfl⟩ <;> exact ⟨rfl, rfl⟩

end HeaderScan

namespace HeaderText

variable {inside : Bool} {s : List Char}

/-- The scan stands behind a header where it stood before it. Inside brackets that takes a depth at
which no colon ends it. -/
theorem after?_eq (h : HeaderText inside s) {d : Nat} (hd : inside = true → 0 < d) :
    (HeaderScan.code d).after? s = some (.code d) := by
  induction h generalizing d with
  | nil => rfl
  | plain hc _ ih =>
    rw [HeaderScan.after?_cons, HeaderScan.step_plain hc hd]
    exact ih hd
  | quoted hq hbody _ ih =>
    simp [HeaderScan.step_quote hq, hbody.after?_eq, HeaderScan.step_endQuote hq, ih hd]
  | group hlr _ _ ihbody ih =>
    obtain ⟨hl, hr⟩ := HeaderScan.step_bracket hlr d
    simp [hl, ihbody fun _ => Nat.succ_pos d, hr, ih hd]

/-- Plain characters may stand in front of a header. -/
theorem plainText (t : List Char) (ht : t.all (isPlain inside) = true)
    (hs : HeaderText inside s) : HeaderText inside (t ++ s) := by
  induction t with
  | nil => exact hs
  | cons c t ih =>
    rw [List.all_cons, Bool.and_eq_true] at ht
    exact .plain ht.1 (ih ht.2)

/-- A header ends at the colon behind it. -/
theorem headerOf_eq (h : HeaderText false s) (rest : List Char) :
    headerOf (s ++ ':' :: rest) = s := by
  have hscan : (HeaderScan.code 0).after? s = some (.code 0) := h.after?_eq (by simp)
  have hcolon : headerFrom? (.code 0) (':' :: rest) = some [] := rfl
  rw [headerOf, HeaderScan.headerFrom?_append hscan, hcolon]
  simp

end HeaderText

/-! ## Ends of headers -/

namespace Text

/-- The last character of a text that is not blank stands in its second part, unless that part is
blank. -/
theorem mem_getLast?_trimEnd_append {s t : List Char} {c : Char}
    (hc : c ∈ (trimEnd (s ++ t)).getLast?) :
    c ∈ (trimEnd t).getLast? ∨ isBlankLine t = true ∧ c ∈ (trimEnd s).getLast? := by
  rw [trimEnd, dropEndWhile_append] at hc
  split at hc
  · next ht => exact Or.inr ⟨trimEnd_eq_nil_iff.mp ht, hc⟩
  · next ht =>
    rw [List.getLast?_append_of_ne_nil _ ht] at hc
    exact Or.inl hc

theorem mem_getLast?_trimEnd_append_cons {s t : List Char} {c x : Char} (hx : isBlank x = false)
    (hc : c ∈ (trimEnd (s ++ x :: t)).getLast?) : c ∈ (trimEnd t).getLast? ∨ c = x := by
  rw [← List.concat_append] at hc
  refine (mem_getLast?_trimEnd_append hc).imp_right ?_
  rintro ⟨-, hlast⟩
  have hends : ∀ y ∈ (s.concat x).getLast?, isBlank y = false := by simp [hx]
  rw [trimEnd_of_getLast? hends] at hlast
  simpa using hlast.symm

end Text

namespace HeaderText

/-- No header ends with a colon, whatever blanks follow it. -/
theorem getLast?_trimEnd_ne {s : List Char} (h : HeaderText false s) :
    ∀ c ∈ (Text.trimEnd s).getLast?, c ≠ ':' := by
  generalize hinside : false = inside at h
  intro c hc
  induction h with
  | nil => cases hc
  | @plain _ x s hplain _ ih =>
    rcases Text.mem_getLast?_trimEnd_append (s := [x]) hc with hs | ⟨-, hx⟩
    · exact ih hinside hs
    · have hmem := Text.mem_of_mem_trimEnd (List.mem_of_getLast? hx)
      rw [List.mem_singleton] at hmem
      rintro rfl
      rw [← hinside, ← hmem] at hplain
      cases hplain
  | @quoted _ q _ _ hq _ _ ih =>
    have hend : Text.isBlank q = false ∧ q ≠ ':' := by
      rcases hq with rfl | rfl <;> decide
    rcases Text.mem_getLast?_trimEnd_append_cons hend.1 hc with hs | rfl
    · exact ih hinside hs
    · exact hend.2
  | @group _ _ r _ _ hlr _ _ _ ih =>
    have hend : Text.isBlank r = false ∧ r ≠ ':' := by
      simp only [brackets, List.mem_cons, Prod.mk.injEq, List.not_mem_nil, or_false] at hlr
      rcases hlr with ⟨-, rfl⟩ | ⟨-, rfl⟩ | ⟨-, rfl⟩ <;> decide
    rcases Text.mem_getLast?_trimEnd_append_cons hend.1 hc with hs | rfl
    · exact ih hinside hs
    · exact hend.2

end HeaderText

theorem dropColon_of_getLast?_ne {s : List Char} (h : ∀ c ∈ s.getLast?, c ≠ ':') :
    dropColon s = s := by
  rw [dropColon]
  cases hend : Text.beforeEnd [':'] s with
  | none => rfl
  | some r =>
    rw [Text.beforeEnd_eq_some_iff] at hend
    exact absurd rfl (h ':' (by simp [hend]))

theorem dropColon_append (s : List Char) : dropColon (s ++ [':']) = s := by
  rw [dropColon, Text.beforeEnd_eq_some_iff.mpr rfl]
  rfl

/-! ## The keyword -/

namespace Text

/-- A whole line with its line feed. -/
def IsLine (l : List Char) : Prop := ∃ text, '\n' ∉ text ∧ l = text ++ ['\n']

theorem linesInclusive_flatten_append {ls : List (List Char)} (h : ∀ l ∈ ls, IsLine l)
    (s : List Char) : linesInclusive (ls.flatten ++ s) = ls ++ linesInclusive s := by
  induction ls with
  | nil => rfl
  | cons l ls ih =>
    obtain ⟨⟨text, hfree, rfl⟩, hls⟩ := List.forall_mem_cons.mp h
    rw [List.flatten_cons, List.append_assoc, List.append_assoc, List.singleton_append,
      linesInclusive_append hfree, ih hls]
    rfl

/-- What comes before the first line feed of a text is the start of its first line. -/
theorem exists_linesInclusive_append {s : List Char} (hne : s ≠ []) (hfree : '\n' ∉ s)
    (t : List Char) :
    ∃ l ls, linesInclusive (s ++ t) = (s ++ l) :: ls ∧ l ++ ls.flatten = t := by
  induction s with
  | nil => exact absurd rfl hne
  | cons c s ih =>
    obtain ⟨hc, hs⟩ := not_or.mp (fun h => hfree (List.mem_cons.mpr h))
    rw [List.cons_append, linesInclusive, if_neg (Ne.symm hc)]
    by_cases hnil : s = []
    · subst hnil
      rw [List.nil_append]
      cases ht : linesInclusive t with
      | nil => exact ⟨[], [], rfl, by rw [← flatten_linesInclusive t, ht]; rfl⟩
      | cons l ls => exact ⟨l, ls, rfl, by rw [← flatten_linesInclusive t, ht]; rfl⟩
    · obtain ⟨l, ls, hlines, hflat⟩ := ih hnil hs
      exact ⟨l, ls, by rw [hlines]; rfl, hflat⟩

end Text

/-- A text that a line can start with. -/
structure IsKeyword (k : String) : Prop where
  ne_nil : k.toList ≠ []
  starts : ∀ c ∈ k.toList.head?, Text.isBlank c = false
  newline_not_mem : '\n' ∉ k.toList

/-- What stands before the colon of a declaration: whole lines that do not start with one of its
keywords, and an indented header that does. -/
structure SourceHead (keywords : List String) where
  /-- The lines in front. -/
  before : List (List Char)
  /-- The blanks in front of the header. -/
  indent : List Char
  header : List Char
  isLine_of_mem : ∀ l ∈ before, Text.IsLine l
  noKeyword : ∀ l ∈ before, ∀ k ∈ keywords, ¬ k.toList <+: Text.trimStart l
  indent_blank : Text.isBlankLine indent = true
  newline_not_mem_indent : '\n' ∉ indent
  isHeader : HeaderText false header
  starts : ∃ k ∈ keywords, k.toList <+: header

theorem startsWithKeyword_iff {keywords : List String} {l : List Char} :
    startsWithKeyword (keywords.map String.toList) l = true ↔
      ∃ k ∈ keywords, k.toList <+: Text.trimStart l := by
  simp [startsWithKeyword]

namespace SourceHead

variable {keywords : List String} (s : SourceHead keywords)

/-- All of it. -/
def text : List Char := s.before.flatten ++ s.indent ++ s.header

theorem splitAtKeyword?_append {ls : List (List Char)}
    (h : ∀ l ∈ ls, ∀ k ∈ keywords, ¬ k.toList <+: Text.trimStart l) (rest : List (List Char)) :
    splitAtKeyword? (keywords.map String.toList) (ls ++ rest) =
      (splitAtKeyword? (keywords.map String.toList) rest).map
        fun p => (ls.flatten ++ p.1, p.2) := by
  induction ls with
  | nil => simp
  | cons l ls ih =>
    obtain ⟨hl, hls⟩ := List.forall_mem_cons.mp h
    have hstart : ¬ startsWithKeyword (keywords.map String.toList) l = true := by
      rw [startsWithKeyword_iff]
      rintro ⟨k, hk, hstarts⟩
      exact hl k hk hstarts
    rw [List.cons_append, splitAtKeyword?, if_neg hstart, ih hls, Option.map_map]
    simp [Function.comp_def]

/-- The source is cut at the keyword of the header. -/
theorem splitAtKeyword?_eq (hkeywords : ∀ k ∈ keywords, IsKeyword k) (rest : List Char) :
    splitAtKeyword? (keywords.map String.toList) (Text.linesInclusive (s.text ++ rest)) =
      some (s.before.flatten ++ s.indent, s.header ++ rest) := by
  obtain ⟨k, hk, tail, htail⟩ := s.starts
  obtain ⟨hne, hstarts, hfree⟩ := hkeywords k hk
  -- the first line behind those in front holds the indentation and the keyword
  obtain ⟨l, ls, hlines, hflat⟩ := Text.exists_linesInclusive_append (s := s.indent ++ k.toList)
    (by simp [hne]) (by simp [hfree, s.newline_not_mem_indent]) (tail ++ rest)
  have hhead : ∀ c ∈ (k.toList ++ l).head?, Text.isBlank c = false := by
    rwa [List.head?_append_of_ne_nil _ hne]
  have htrim : Text.trimStart (s.indent ++ k.toList ++ l) = k.toList ++ l := by
    rw [List.append_assoc, Text.trimStart_append_blanks s.indent_blank,
      Text.trimStart_of_head? hhead]
  have htake : (s.indent ++ k.toList ++ l).takeWhile Text.isBlank = s.indent := by
    have hwhole : _ ++ Text.trimStart (s.indent ++ k.toList ++ l) = _ :=
      List.takeWhile_append_dropWhile
    rw [htrim, List.append_assoc s.indent] at hwhole
    rw [List.append_assoc]
    exact List.append_cancel_right hwhole
  have hsource : s.text ++ rest = s.before.flatten ++ (s.indent ++ k.toList ++ (tail ++ rest)) := by
    simp [text, ← htail]
  rw [hsource, Text.linesInclusive_flatten_append s.isLine_of_mem,
    splitAtKeyword?_append s.noKeyword, hlines, splitAtKeyword?,
    if_pos (startsWithKeyword_iff.mpr ⟨k, hk, htrim ▸ List.prefix_append _ _⟩), htake, htrim]
  simp [← htail, hflat]

theorem isBlankLine_header (hkeywords : ∀ k ∈ keywords, IsKeyword k) :
    Text.isBlankLine s.header = false := by
  obtain ⟨k, hk, tail, htail⟩ := s.starts
  obtain ⟨hne, hstarts, -⟩ := hkeywords k hk
  rw [← htail]
  cases hk : k.toList with
  | nil => exact absurd hk hne
  | cons c r =>
    rw [List.cons_append, Text.isBlankLine_cons, hstarts c (by rw [hk]; rfl), Bool.false_and]

theorem dropColon_trimEnd_text (hkeywords : ∀ k ∈ keywords, IsKeyword k) :
    dropColon (Text.trimEnd s.text) = Text.trimEnd s.text := by
  apply dropColon_of_getLast?_ne
  intro c hc
  rcases Text.mem_getLast?_trimEnd_append hc with hheader | ⟨hblank, -⟩
  · exact s.isHeader.getLast?_trimEnd_ne c hheader
  · rw [s.isBlankLine_header hkeywords] at hblank
    cases hblank

end SourceHead

/-! ## Declarations -/

theorem isKeyword_of_mem_functionKeywords : ∀ k ∈ ["async def ", "def "], IsKeyword k := by
  simp only [List.mem_cons, List.not_mem_nil, or_false]
  rintro k (rfl | rfl)
  · exact ⟨by decide, Text.notBlank_iff.mp rfl, by decide⟩
  · exact ⟨by decide, Text.notBlank_iff.mp rfl, by decide⟩

theorem isKeyword_of_mem_classKeywords : ∀ k ∈ ["class "], IsKeyword k := by
  simp only [List.mem_singleton]
  rintro k rfl
  exact ⟨by decide, Text.notBlank_iff.mp rfl, by decide⟩

namespace SourceHead

/-- A keyword alone is the header of a declaration. -/
theorem exists_header_eq {keywords : List String} {k : String} (hk : k ∈ keywords)
    (hheader : HeaderText false k.toList) :
    ∃ s : SourceHead keywords, s.text = k.toList ∧ s.header = k.toList :=
  ⟨{ before := []
     indent := []
     header := k.toList
     isLine_of_mem := List.forall_mem_nil _
     noKeyword := List.forall_mem_nil _
     indent_blank := rfl
     newline_not_mem_indent := List.not_mem_nil
     isHeader := hheader
     starts := ⟨k, hk, List.prefix_rfl⟩ }, rfl, rfl⟩

/-- A source is read from the keyword of its header on, whatever follows. -/
theorem functionDeclaration_append (s : SourceHead ["async def ", "def "]) (rest : List Char) :
    functionDeclaration (s.text ++ rest) = Text.trimEnd (headerOf (s.header ++ rest)) := by
  have hsplit := s.splitAtKeyword?_eq isKeyword_of_mem_functionKeywords rest
  have hkeywords : functionKeywords = ["async def ", "def "].map String.toList := rfl
  rw [functionDeclaration, hkeywords, hsplit]

theorem functionDeclaration_eq (s : SourceHead ["async def ", "def "]) (rest : List Char) :
    functionDeclaration (s.text ++ ':' :: rest) = Text.trimEnd s.header := by
  rw [s.functionDeclaration_append, s.isHeader.headerOf_eq]

/-- A source that starts with the keyword of a function is read as a whole. -/
theorem functionDeclaration_of_starts {k : String} (hk : k ∈ ["async def ", "def "])
    (rest : List Char) :
    functionDeclaration (k.toList ++ rest) = Text.trimEnd (headerOf (k.toList ++ rest)) := by
  have hplain : k.toList.all (isPlain false) = true := by
    simp only [List.mem_cons, List.not_mem_nil, or_false] at hk
    rcases hk with rfl | rfl <;> rfl
  have hheader : HeaderText false k.toList :=
    List.append_nil k.toList ▸ HeaderText.nil.plainText _ hplain
  obtain ⟨s, htext, hself⟩ := exists_header_eq hk hheader
  have hread := s.functionDeclaration_append rest
  rwa [htext, hself] at hread

theorem beforeClassColon_eq (s : SourceHead ["class "]) (rest : List Char) :
    beforeClassColon (s.text ++ ':' :: rest) = s.text := by
  have hsplit := s.splitAtKeyword?_eq isKeyword_of_mem_classKeywords (':' :: rest)
  have hkeywords : classKeywords = ["class "].map String.toList := rfl
  rw [beforeClassColon, hkeywords, hsplit]
  simp only [s.isHeader.headerOf_eq, text]

theorem classDeclaration_eq (s : SourceHead ["class "]) (rest : List Char) :
    classDeclaration (s.text ++ ':' :: rest) false = Text.trimEnd s.text := by
  simp only [classDeclaration, Bool.false_eq_true, if_false, s.beforeClassColon_eq]
  rw [s.dropColon_trimEnd_text isKeyword_of_mem_classKeywords,
    Text.trimEnd_of_getLast? (Text.getLast?_trimEnd _)]

/-- A declaration is what stands before the colon behind its header, whatever follows: for a
function from its keyword on, for a class with all that stands in front. -/
theorem declaration_eq (rest : List Char) :
    (∀ f : SourceHead ["async def ", "def "],
      functionDeclaration (f.text ++ ':' :: rest) = Text.trimEnd f.header) ∧
    ∀ c : SourceHead ["class "],
      classDeclaration (c.text ++ ':' :: rest) false = Text.trimEnd c.text :=
  ⟨fun f => f.functionDeclaration_eq rest, fun c => c.classDeclaration_eq rest⟩

/-- A decorated method with colons in an annotation and in a literal. -/
def decoratedMethod : SourceHead ["async def ", "def "] where
  before := ["@cached\n".toList]
  indent := "    ".toList
  header := "async def run(a: int, b=':')".toList
  isLine_of_mem := by
    rw [List.forall_mem_singleton]
    exact ⟨"@cached".toList, by decide, rfl⟩
  noKeyword := by decide
  indent_blank := rfl
  newline_not_mem_indent := by decide
  isHeader := by
    have hliteral : HeaderText true ('\'' :: [':'] ++ '\'' :: []) :=
      .quoted (Or.inl rfl) (.plain (by decide) (by decide) .nil) .nil
    have hgroup : HeaderText false
        ('(' :: ("a: int, b=".toList ++ ('\'' :: [':'] ++ '\'' :: [])) ++ ')' :: []) :=
      .group (by decide) (hliteral.plainText _ rfl) .nil
    convert hgroup.plainText "async def run".toList rfl
    decide +kernel
  starts := ⟨"async def ", by decide, by decide⟩

/-- A decorated class with a slice in its bases and a blank in front of its colon. -/
def decoratedClass : SourceHead ["class "] where
  before := ["@final\n".toList]
  indent := "  ".toList
  header := "class P(B[0:1]) ".toList
  isLine_of_mem := by
    rw [List.forall_mem_singleton]
    exact ⟨"@final".toList, by decide, rfl⟩
  noKeyword := by decide
  indent_blank := rfl
  newline_not_mem_indent := by decide
  isHeader := by
    have hslice : HeaderText true ('[' :: ("0:1".toList ++ []) ++ ']' :: []) :=
      .group (by decide) (HeaderText.nil.plainText _ rfl) .nil
    have hgroup : HeaderText false
        ('(' :: ("B".toList ++ ('[' :: ("0:1".toList ++ []) ++ ']' :: [])) ++ ')' ::
          (" ".toList ++ [])) :=
      .group (by decide) (hslice.plainText _ rfl) (HeaderText.nil.plainText _ rfl)
    convert hgroup.plainText "class P".toList rfl
    decide +kernel
  starts := ⟨"class ", by decide, by decide⟩

theorem decorated_declarations :
    functionDeclaration "@cached\n    async def run(a: int, b=':'):\n        pass".toList =
      "async def run(a: int, b=':')".toList ∧
    classDeclaration "@final\n  class P(B[0:1]) :\n    x: int".toList false =
      "@final\n  class P(B[0:1])".toList := by
  have hmethod := (declaration_eq "\n        pass".toList).1 decoratedMethod
  have hclass := (declaration_eq "\n    x: int".toList).2 decoratedClass
  constructor
  · convert hmethod using 1 <;> decide +kernel
  · convert hclass using 1 <;> decide +kernel

end SourceHead

end ApiPages
