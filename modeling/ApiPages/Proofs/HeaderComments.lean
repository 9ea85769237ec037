import ApiPages.Proofs.HeaderText

/-!
# Comments in headers

The scan for the colon of a header knows no comments: it reads one between two lines of a header as
if it were code. A comment with paired quotes and balanced brackets is passed over. An apostrophe
opens a literal that ends wherever the next one stands, and a bracket shifts the depth at which the
colon counts.

Results:

* `LooseText.after?_eq_iff`: the texts behind which the scan stands outside brackets and literals
  again.
* `trimEnd_headerOf_eq_iff`: the header before a colon is found exactly behind these texts.
* `PlaceInBrackets.headerText`: a header with more text inside its brackets.
* `BrokenHeader.functionDeclaration_comment`: when a comment leaves the end of a declaration alone.
-/

namespace ApiPages

/-! ## Texts that read as a header -/

/-- The brackets that open a group. -/
def openers : List Char := brackets.map Prod.fst

/-- The brackets that close a group. -/
def closers : List Char := brackets.map Prod.snd

/-- A text that reads as a header: a group may be closed by a bracket of another kind, and outside
groups stands any number of closing brackets. -/
inductive LooseText : (inside : Bool) → List Char → Prop
  | nil {inside : Bool} : LooseText inside []
  | plain {inside : Bool} {c : Char} {s : List Char} (hc : isPlain inside c = true)
      (hs : LooseText inside s) : LooseText inside (c :: s)
  | quoted {inside : Bool} {q : Char} {body s : List Char} (hq : IsQuote q)
      (hbody : QuotedText q body) (hs : LooseText inside s) :
      LooseText inside (q :: body ++ q :: s)
  | group {inside : Bool} {l r : Char} {body s : List Char} (hl : l ∈ openers) (hr : r ∈ closers)
      (hbody : LooseText true body) (hs : LooseText inside s) :
      LooseText inside (l :: body ++ r :: s)
  | stray {r : Char} {s : List Char} (hr : r ∈ closers) (hs : LooseText false s) :
      LooseText false (r :: s)

theorem HeaderText.looseText {inside : Bool} {s : List Char} (h : HeaderText inside s) :
    LooseText inside s := by
  induction h with
  | nil => exact .nil
  | plain hc _ ih => exact .plain hc ih
  | quoted hq hbody _ ih => exact .quoted hq hbody ih
  | group hlr _ _ ihbody ih =>
    exact .group (List.mem_map_of_mem hlr) (List.mem_map_of_mem hlr) ihbody ih

namespace HeaderScan

theorem step_opener {l : Char} (hl : l ∈ openers) (d : Nat) :
    (code d).step l = some (code (d + 1)) := by
  simp only [openers, brackets, List.map_cons, List.map_nil, List.mem_cons, List.not_mem_nil,
    or_false] at hl
  rcases hl with rfl | rfl | rfl <;> rfl

theorem step_closer {r : Char} (hr : r ∈ closers) (d : Nat) :
    (code d).step r = some (code (d - 1)) := by
  simp only [closers, brackets, List.map_cons, List.map_nil, List.mem_cons, List.not_mem_nil,
    or_false] at hr
  rcases hr with rfl | rfl | rfl <;> rfl

/-- Outside literals a character is a quote, a bracket, the colon that ends the header, or plain. -/
theorem char_cases (d : Nat) (c : Char) :
    IsQuote c ∨ c ∈ openers ∨ c ∈ closers ∨ (c = ':' ∧ d = 0) ∨
      isPlain (decide (0 < d)) c = true := by
  by_cases hmark : c ∈ headerMarks
  · simp only [headerMarks, List.mem_cons, List.not_mem_nil, or_false] at hmark
    rcases hmark with rfl | rfl | rfl | rfl | rfl | rfl | rfl | rfl <;> simp [IsQuote, openers,
      closers, brackets]
  · by_cases hcolon : c = ':' ∧ d = 0
    · exact Or.inr (Or.inr (Or.inr (Or.inl hcolon)))
    · refine Or.inr (Or.inr (Or.inr (Or.inr ?_)))
      simp only [isPlain, List.contains_eq_mem, hmark, decide_false, Bool.not_false, Bool.true_and,
        Bool.or_eq_true, decide_eq_true_eq, bne_iff_ne, ne_eq]
      by_contra hnot
      obtain ⟨hd, hc⟩ := not_or.mp hnot
      exact hcolon ⟨not_not.mp hc, Nat.eq_zero_of_not_pos hd⟩

/-- The scan ends at a colon outside brackets and literals, and nowhere else. -/
theorem step_eq_none_iff {scan : HeaderScan} {c : Char} :
    scan.step c = none ↔ scan = code 0 ∧ c = ':' := by
  constructor
  · intro h
    match scan with
    | code d =>
      rcases char_cases d c with hquote | hopen | hclose | ⟨hcolon, rfl⟩ | hplain
      · rw [step_quote hquote] at h
        cases h
      · rw [step_opener hopen] at h
        cases h
      · rw [step_closer hclose] at h
        cases h
      · exact ⟨rfl, hcolon⟩
      · rw [step_plain hplain of_decide_eq_true] at h
        cases h
    | quoted d q true => cases h
    | quoted d q false =>
      simp only [step] at h
      split_ifs at h
  · rintro ⟨rfl, rfl⟩
    rfl

end HeaderScan

/-- A text that closes so many groups and then reads as a header. -/
inductive ClosingText : (groups : Nat) → List Char → Prop
  | done {s : List Char} (hs : LooseText false s) : ClosingText 0 s
  | close {d : Nat} {r : Char} {body s : List Char} (hbody : LooseText true body)
      (hr : r ∈ closers) (hs : ClosingText d s) : ClosingText (d + 1) (body ++ r :: s)

namespace ClosingText

variable {d : Nat} {s : List Char}

theorem plain {c : Char} (hc : isPlain (decide (0 < d)) c = true) (h : ClosingText d s) :
    ClosingText d (c :: s) := by
  cases h with
  | done hs => exact .done (.plain hc hs)
  | close hbody hr hs => exact .close (.plain hc hbody) hr hs

theorem quoted {q : Char} {body : List Char} (hq : IsQuote q) (hbody : QuotedText q body)
    (h : ClosingText d s) : ClosingText d (q :: body ++ q :: s) := by
  cases h with
  | done hs => exact .done (.quoted hq hbody hs)
  | close hfront hr hs =>
    have hmore := ClosingText.close (.quoted hq hbody hfront) hr hs
    simpa using hmore

theorem opened {l : Char} (hl : l ∈ openers) (h : ClosingText (d + 1) s) :
    ClosingText d (l :: s) := by
  cases h with
  | close hbody hr hs =>
    cases hs with
    | done hs => exact .done (.group hl hr hbody hs)
    | close hfront hr' hs =>
      have hmore := ClosingText.close (.group hl hr hbody hfront) hr' hs
      simpa using hmore

theorem closed {r : Char} (hr : r ∈ closers) (h : ClosingText (d - 1) s) :
    ClosingText d (r :: s) := by
  cases d with
  | zero =>
    cases h with
    | done hs => exact .done (.stray hr hs)
  | succ d => exact .close .nil hr h

end ClosingText

namespace HeaderScan

/-- What the scan has before it when it stands outside at the end of a text. -/
def Rest : HeaderScan → List Char → Prop
  | code d, s => ClosingText d s
  | quoted d q false, s =>
    ∃ body t, s = body ++ q :: t ∧ QuotedText q body ∧ ClosingText d t
  | quoted d q true, s =>
    ∃ c body t, s = c :: body ++ q :: t ∧ QuotedText q body ∧ ClosingText d t

theorem rest_cons_code {d : Nat} {c : Char} {s : List Char} {next : HeaderScan}
    (hstep : (code d).step c = some next) (h : next.Rest s) : ClosingText d (c :: s) := by
  rcases char_cases d c with hquote | hopen | hclose | ⟨rfl, rfl⟩ | hplain
  · rw [step_quote hquote] at hstep
    cases hstep
    obtain ⟨body, t, rfl, hbody, ht⟩ := h
    exact ht.quoted hquote hbody
  · rw [step_opener hopen] at hstep
    cases hstep
    exact ClosingText.opened hopen h
  · rw [step_closer hclose] at hstep
    cases hstep
    exact ClosingText.closed hclose h
  · cases hstep
  · rw [step_plain hplain of_decide_eq_true] at hstep
    cases hstep
    exact ClosingText.plain hplain h

theorem rest_cons_quoted {d : Nat} {q c : Char} {s : List Char} {next : HeaderScan}
    (hstep : (quoted d q false).step c = some next) (h : next.Rest s) :
    (quoted d q false).Rest (c :: s) := by
  by_cases hescape : c = '\\'
  · subst hescape
    cases hstep
    obtain ⟨x, body, t, rfl, hbody, ht⟩ := h
    exact ⟨_, t, rfl, .escaped hbody, ht⟩
  · by_cases hquote : c = q
    · subst hquote
      simp only [step, hescape, if_false, if_true, Option.some.injEq] at hstep
      subst hstep
      exact ⟨[], s, rfl, .nil, h⟩
    · simp only [step, hescape, hquote, if_false, Option.some.injEq] at hstep
      subst hstep
      obtain ⟨body, t, rfl, hbody, ht⟩ := h
      exact ⟨c :: body, t, rfl, .plain hquote hescape hbody, ht⟩

/-- A scan that ends outside has passed over literals and groups and closed what was open. -/
theorem rest_of_after? {scan : HeaderScan} {s : List Char}
    (h : scan.after? s = some (.code 0)) : scan.Rest s := by
  induction s generalizing scan with
  | nil =>
    cases h
    exact .done .nil
  | cons c s ih =>
    rw [after?_cons, Option.bind_eq_some_iff] at h
    obtain ⟨next, hstep, hnext⟩ := h
    match scan with
    | code d => exact rest_cons_code hstep (ih hnext)
    | quoted d q false => exact rest_cons_quoted hstep (ih hnext)
    | quoted d q true =>
      cases hstep
      obtain ⟨body, t, rfl, hbody, ht⟩ := ih hnext
      exact ⟨c, body, t, rfl, hbody, ht⟩

end HeaderScan

namespace LooseText

variable {inside : Bool} {s : List Char}

/-- The scan stands behind such a text where it stood before it. -/
theorem after?_eq (h : LooseText inside s) {d : Nat} (hd : inside = true ↔ 0 < d) :
    (HeaderScan.code d).after? s = some (.code d) := by
  induction h generalizing d with
  | nil => rfl
  | plain hc _ ih =>
    rw [HeaderScan.after?_cons, HeaderScan.step_plain hc hd.mp]
    exact ih hd
  | quoted hq hbody _ ih =>
    simp [HeaderScan.step_quote hq, hbody.after?_eq, HeaderScan.step_endQuote hq, ih hd]
  | group hl hr _ _ ihbody ih =>
    simp [HeaderScan.step_opener hl, ihbody (d := d + 1) (by simp), HeaderScan.step_closer hr,
      ih hd]
  | stray hr _ ih =>
    have hzero : d = 0 := by simpa using hd
    subst hzero
    rw [HeaderScan.after?_cons, HeaderScan.step_closer hr]
    exact ih hd

/-- The texts behind which the scan stands outside brackets and literals again. -/
theorem after?_eq_iff :
    (HeaderScan.code 0).after? s = some (.code 0) ↔ LooseText false s := by
  constructor
  · intro h
    cases HeaderScan.rest_of_after? h with
    | done hs => exact hs
  · intro h
    exact h.after?_eq (by simp)

end LooseText

/-! ## The colon behind a text -/

/-- More than blanks behind a text stays when it is trimmed. -/
theorem Text.trimEnd_append_colon_ne (s t : List Char) :
    trimEnd (s ++ ':' :: t) ≠ trimEnd s := by
  intro h
  have hcolon : ∀ c ∈ (s ++ [':']).getLast?, isBlank c = false := by
    rw [List.getLast?_concat]
    exact notBlank_iff.mp rfl
  have hlong : s ++ [':'] <+: trimEnd (s ++ ':' :: t) :=
    prefix_dropEndWhile hcolon ⟨t, by simp⟩
  rw [h] at hlong
  have hshort := (hlong.trans (Text.dropEndWhile_prefix _ s)).length_le
  rw [List.length_append, List.length_singleton] at hshort
  omega

namespace HeaderScan

/-- A header that ends in a text ends in front of a colon of the text. -/
theorem exists_headerFrom?_of_after?_eq_none {scan : HeaderScan} {s : List Char}
    (h : scan.after? s = none) :
    ∃ header tail, s = header ++ ':' :: tail ∧
      ∀ rest, headerFrom? scan (s ++ rest) = some header := by
  induction s generalizing scan with
  | nil => cases h
  | cons c s ih =>
    rw [after?_cons] at h
    cases hstep : scan.step c with
    | none =>
      obtain ⟨-, rfl⟩ := step_eq_none_iff.mp hstep
      refine ⟨[], s, rfl, fun rest => ?_⟩
      rw [List.cons_append, headerFrom?, hstep]
    | some next =>
      rw [hstep, Option.bind_some] at h
      obtain ⟨header, tail, rfl, hheader⟩ := ih h
      refine ⟨c :: header, tail, rfl, fun rest => ?_⟩
      rw [List.cons_append, headerFrom?, hstep]
      simp only [hheader, Option.map_some]

end HeaderScan

/-- The header before a colon is found exactly if the scan passes over it. -/
theorem trimEnd_headerOf_eq_iff {s rest : List Char} :
    Text.trimEnd (headerOf (s ++ ':' :: rest)) = Text.trimEnd s ↔ LooseText false s := by
  rw [← LooseText.after?_eq_iff]
  cases hscan : (HeaderScan.code 0).after? s with
  | none =>
    obtain ⟨header, tail, rfl, hheader⟩ := HeaderScan.exists_headerFrom?_of_after?_eq_none hscan
    rw [headerOf, hheader, Option.getD_some]
    exact iff_of_false (Text.trimEnd_append_colon_ne header tail).symm (by simp)
  | some next =>
    have hheader := HeaderScan.headerFrom?_append hscan (':' :: rest)
    rw [headerFrom?] at hheader
    rw [Option.some.injEq]
    cases hstep : next.step ':' with
    | none =>
      rw [hstep, Option.map_some, List.append_nil] at hheader
      rw [headerOf, hheader, Option.getD_some]
      exact iff_of_true rfl (HeaderScan.step_eq_none_iff.mp hstep).1
    | some later =>
      have hnext : next ≠ .code 0 := by
        rintro rfl
        cases hstep
      -- the colon belongs to the header, wherever that ends
      obtain ⟨tail, htail⟩ : ∃ tail, headerOf (s ++ ':' :: rest) = s ++ ':' :: tail := by
        simp only [hstep] at hheader
        rw [headerOf, hheader]
        cases headerFrom? later rest with
        | none => exact ⟨rest, rfl⟩
        | some tail => exact ⟨tail, rfl⟩
      rw [htail]
      exact iff_of_false (Text.trimEnd_append_colon_ne s tail) hnext

/-! ## Comments between the lines of a header -/

theorem HeaderText.append {inside : Bool} {s t : List Char} (hs : HeaderText inside s)
    (ht : HeaderText inside t) : HeaderText inside (s ++ t) := by
  induction hs with
  | nil => exact ht
  | plain hc _ ih => exact .plain hc (ih ht)
  | quoted hq hbody _ ih => simpa using HeaderText.quoted hq hbody (ih ht)
  | group hlr hbody _ _ ih => simpa using HeaderText.group hlr hbody (ih ht)

/-- What stands in front of a place in a header and what stands behind it. The place is inside
brackets and outside literals. -/
inductive PlaceInBrackets : (inside : Bool) → List Char → List Char → Prop
  | here {s t : List Char} (hs : HeaderText true s) (ht : HeaderText true t) :
      PlaceInBrackets true s t
  | group {inside : Bool} {l r : Char} {s t front back : List Char} (hlr : (l, r) ∈ brackets)
      (hs : HeaderText inside s) (hplace : PlaceInBrackets true front back)
      (ht : HeaderText inside t) : PlaceInBrackets inside (s ++ l :: front) (back ++ r :: t)

/-- A header with more text inside its brackets. -/
theorem PlaceInBrackets.headerText {inside : Bool} {front back text : List Char}
    (h : PlaceInBrackets inside front back) (htext : HeaderText true text) :
    HeaderText inside (front ++ text ++ back) := by
  induction h with
  | here hs ht => exact (hs.append htext).append ht
  | group hlr hs _ ht ih => simpa using hs.append (.group hlr ih ht)

/-- A header of a function that is broken into two lines inside brackets. -/
structure BrokenHeader where
  /-- The header up to the line break. -/
  front : List Char
  /-- The header behind the line break. -/
  back : List Char
  isPlace : PlaceInBrackets false front back
  starts : ∃ k ∈ ["async def ", "def "], k.toList <+: front ++ '\n' :: back

namespace BrokenHeader

variable (h : BrokenHeader)

/-- The header with a comment at the end of its first line. -/
def commented (comment : List Char) : List Char :=
  h.front ++ '#' :: comment ++ '\n' :: h.back

theorem headerText_commented {comment : List Char} (hcomment : HeaderText true comment) :
    HeaderText false (h.commented comment) := by
  have hline : HeaderText true ('#' :: comment ++ ['\n']) :=
    .plain rfl (hcomment.append (.plain rfl .nil))
  simpa [commented] using h.isPlace.headerText hline

/-- The declaration of a function with a comment in its header ends at the colon of the header
exactly if the header still reads as one when its comment is read as code. So it does for every
comment with paired quotes and balanced brackets. -/
theorem functionDeclaration_comment (comment rest : List Char) :
    (functionDeclaration (h.commented comment ++ ':' :: rest) =
        Text.trimEnd (h.commented comment) ↔ LooseText false (h.commented comment)) ∧
    (HeaderText true comment →
      functionDeclaration (h.commented comment ++ ':' :: rest) =
        Text.trimEnd (h.commented comment)) := by
  have hiff : functionDeclaration (h.commented comment ++ ':' :: rest) =
      Text.trimEnd (h.commented comment) ↔ LooseText false (h.commented comment) := by
    obtain ⟨k, hk, hstarts⟩ := h.starts
    have hbreak : '\n' ∉ k.toList := (isKeyword_of_mem_functionKeywords k hk).newline_not_mem
    -- the line break lies inside brackets, so the keyword stands in front of it
    obtain ⟨tail, htail⟩ := Text.prefix_of_append_cons hbreak hstarts
    have hsource : h.commented comment ++ ':' :: rest =
        k.toList ++ (tail ++ '#' :: comment ++ '\n' :: h.back ++ ':' :: rest) := by
      simp [commented, ← htail]
    rw [hsource, SourceHead.functionDeclaration_of_starts hk, ← hsource]
    exact trimEnd_headerOf_eq_iff
  exact ⟨hiff, fun hcomment => hiff.mpr (h.headerText_commented hcomment).looseText⟩

/-- A function with one parameter a line. -/
def twoLines : BrokenHeader where
  front := "def f(a,  ".toList
  back := "    b)".toList
  isPlace := by
    have hfront : HeaderText true ("a,  ".toList ++ []) := HeaderText.nil.plainText _ rfl
    have hback : HeaderText true ("    b".toList ++ []) := HeaderText.nil.plainText _ rfl
    have hname : HeaderText false ("def f".toList ++ []) := HeaderText.nil.plainText _ rfl
    exact .group (l := '(') (r := ')') (by decide) hname (.here hfront hback) .nil
  starts := ⟨"def ", by decide, by decide⟩

/-- A comment with paired quotes, balanced brackets and a colon is passed over. -/
theorem twoLines_balanced :
    HeaderText true " 'a' [b]: c".toList ∧
    functionDeclaration "def f(a,  # 'a' [b]: c\n    b):\n    pass".toList =
      "def f(a,  # 'a' [b]: c\n    b)".toList := by
  have hbracket : HeaderText true (" ".toList ++ ('[' :: ("b".toList ++ []) ++ ']' ::
      (": c".toList ++ []))) :=
    HeaderText.plainText _ rfl
      (.group (by decide) (HeaderText.nil.plainText _ rfl) (HeaderText.nil.plainText _ rfl))
  have hliteral : QuotedText '\'' ['a'] := .plain (by decide) (by decide) .nil
  have hcomment : HeaderText true " 'a' [b]: c".toList :=
    .plain rfl (.quoted (Or.inl rfl) hliteral hbracket)
  have h := (twoLines.functionDeclaration_comment " 'a' [b]: c".toList "\n    pass".toList).2
  refine ⟨hcomment, ?_⟩
  convert h hcomment using 1 <;> decide +kernel

/-- An apostrophe in a comment hides the colon of the header, and the declaration goes on over the
body. -/
theorem twoLines_apostrophe :
    '\n' ∉ " don't".toList ∧
    twoLines.commented " don't".toList ++ ':' :: "\n    pass".toList =
      "def f(a,  # don't\n    b):\n    pass".toList ∧
    functionDeclaration (twoLines.commented " don't".toList ++ ':' :: "\n    pass".toList) =
      "def f(a,  # don't\n    b):\n    pass".toList ∧
    functionDeclaration (twoLines.commented " don't".toList ++ ':' :: "\n    pass".toList) ≠
      Text.trimEnd (twoLines.commented " don't".toList) := by
  refine ⟨by decide, ?_, ?_, ?_⟩ <;> decide +kernel

end BrokenHeader

end ApiPages
