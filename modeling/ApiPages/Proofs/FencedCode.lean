import ApiPages.Proofs.DocstringRuns
import ApiPages.Proofs.NormalForm

/-!
# Fenced code

A docstring is read as one text, word for word, exactly if none of its lines opens a section outside
fenced code. Code between lines of backquotes is such a docstring as long as no line in it starts
with tildes. There is one kind of fence only: a line of tildes closes what a line of backquotes has
opened, and a title below it opens a section.

Results:

* `IsCut.isText_iff`: lines are one run of free text iff no line opens a section.
* `Docstring.parse_eq_text_iff`: when a docstring is one text.
* `quiet_fencedLines_iff`: what is before and behind the code opens no section.
* `Docstring.parse_fencedText`: when fenced code is read word for word.
-/

namespace ApiPages

/-! ## Docstrings without sections -/

/-- No line outside fenced code opens a section, with fenced code open or not in front of the
lines. -/
def Quiet (fenced : Bool) (ls : List (List Char)) : Prop :=
  ∀ before l after, ls = before ++ l :: after → isFence l = false →
    fencedAfter fenced before = false → opens? l after = none

theorem fencedAfter_append (fenced : Bool) (ls ks : List (List Char)) :
    fencedAfter fenced (ls ++ ks) = fencedAfter (fencedAfter fenced ls) ks :=
  List.foldl_append

namespace IsCut

variable {fenced : Bool} {ls : List (List Char)} {rs : List Run}

/-- Lines are cut into texts only iff no line opens a section. -/
theorem isText_iff (h : IsCut fenced ls rs) : (∀ r ∈ rs, r.isText = true) ↔ Quiet fenced ls := by
  induction h with
  | nil =>
    refine ⟨fun _ before l after heq => ?_, fun _ r hr => by cases hr⟩
    exact absurd heq.symm (List.append_ne_nil_of_right_ne_nil before (List.cons_ne_nil l after))
  | @text fenced ks rest rs hne hopens hnext hrest ih =>
    rw [List.forall_mem_cons, ih]
    constructor
    · rintro ⟨-, hquiet⟩ before l after heq hfence hfenced
      -- the line is one of the text or one behind it
      rcases List.append_eq_append_iff.mp heq with ⟨mid, rfl, hbelow⟩ | ⟨mid, rfl, hbelow⟩
      · rw [fencedAfter_append] at hfenced
        exact hquiet mid l after hbelow hfence hfenced
      · cases mid with
        | nil =>
          rw [List.append_nil] at hquiet
          exact hquiet [] l after hbelow.symm hfence hfenced
        | cons k mid =>
          obtain ⟨rfl, rfl⟩ := List.cons.inj hbelow
          exact hopens before l mid rfl hfence hfenced
    · intro hquiet
      refine ⟨rfl, fun before l after heq hfence hfenced => ?_⟩
      rw [← fencedAfter_append] at hfenced
      exact hquiet (ks ++ before) l after (by rw [heq, List.append_assoc]) hfence hfenced
  | titled hfence hopens hblock hrest ih =>
    constructor
    · intro htext
      cases htext _ List.mem_cons_self
    · intro hquiet
      rw [hquiet [] _ _ rfl hfence rfl] at hopens
      cases hopens

/-- Texts that are cut from lines are one text. -/
theorem eq_text (h : IsCut fenced ls rs) (hne : ls ≠ []) (htext : ∀ r ∈ rs, r.isText = true) :
    rs = [.text ls] := by
  cases h with
  | nil => exact absurd rfl hne
  | @text _ ks rest rs _ _ hnext hrest =>
    obtain rfl : rs = [] := by
      cases rs with
      | nil => rfl
      | cons r rs =>
        have hr := hnext r rfl
        rw [htext r (by simp)] at hr
        cases hr
    obtain rfl : rest = [] := hrest.flatMap_lines.symm
    rw [List.append_nil]
  | titled => cases htext _ List.mem_cons_self

end IsCut

/-- A section under a title is no free text. -/
theorem DocSection.isText_of_read {title : String} {block : List (List Char)} {s : DocSection}
    (h : DocSection.read title block = .ok s) : s.isText = false := by
  rw [read] at h
  split at h
  · cases hread : readParameters title block with
    | ok items =>
      rw [hread] at h
      cases h
      rfl
    | error f =>
      rw [hread] at h
      cases h
  · split at h
    · simp only [readReturns] at h
      split at h
      · cases h
      · cases h
        rfl
    · cases h
      rfl

/-- A run that leads to no fault, and to nothing but free text, is free text. -/
theorem Run.isText_of_read {r : Run} (hfault : r.fault? = none)
    (hsection : ∀ s ∈ r.section?, s.isText = true) : r.isText = true := by
  cases r with
  | text ls => rfl
  | titled line title block =>
    rw [fault?] at hfault
    rw [section?] at hsection
    cases hread : DocSection.read (String.ofList title) (Text.dedent block) with
    | error f =>
      rw [hread] at hfault
      cases hfault
    | ok s =>
      have hs := hsection s (by rw [hread]; rfl)
      rw [DocSection.isText_of_read hread] at hs
      cases hs

theorem Text.getLast?_joinLines_concat (ls : List (List Char)) {l : List Char} (hne : l ≠ []) :
    (joinLines (ls ++ [l])).getLast? = l.getLast? := by
  cases ls with
  | nil => rfl
  | cons k ks =>
    obtain ⟨c, hc⟩ := Option.ne_none_iff_exists'.mp (mt List.getLast?_eq_none_iff.mp hne)
    rw [joinLines, joinWith_append (List.cons_ne_nil k ks) (List.cons_ne_nil l []),
      List.getLast?_append, joinWith, hc]
    rfl

namespace IsNormal

variable {ls : List (List Char)} (h : IsNormal ls)
include h

/-- Normal lines neither start nor end with a line feed when they are joined. -/
theorem dropBreaks_joinLines :
    Text.dropEndWhile (fun c => c == '\n') ((Text.joinLines ls).dropWhile fun c => c == '\n') =
      Text.joinLines ls := by
  rcases List.eq_nil_or_concat' ls with rfl | ⟨before, k, hconcat⟩
  · rfl
  · have hstart : (Text.joinLines ls).dropWhile (fun c => c == '\n') = Text.joinLines ls := by
      cases hls : ls with
      | nil => rfl
      | cons l rest =>
        have hblank := h.first l (by rw [hls]; rfl)
        obtain ⟨c, r, rfl⟩ : ∃ c r, l = c :: r := by
          cases l with
          | nil => cases hblank
          | cons c r => exact ⟨c, r, rfl⟩
        have hc : c ≠ '\n' := by
          rintro rfl
          exact h.free _ (by rw [hls]; exact List.mem_cons_self) List.mem_cons_self
        obtain ⟨t, ht⟩ := Text.exists_joinWith_eq_cons ['\n'] c r rest
        rw [Text.joinLines, ht, List.dropWhile_cons, if_neg (by simpa using hc)]
    have hend : ∀ c ∈ (Text.joinLines ls).getLast?, (c == '\n') = false := by
      intro c hc
      have hk : k ≠ [] := h.ne_nil_of_mem_getLast? k (by rw [hconcat, List.getLast?_concat]; rfl)
      rw [hconcat, Text.getLast?_joinLines_concat before hk] at hc
      rw [beq_eq_false_iff_ne]
      rintro rfl
      exact h.free k (by rw [hconcat]; simp) (List.mem_of_getLast? hc)
    rw [hstart, Text.dropEndWhile_of_getLast? hend]

/-- Normal lines are one text. -/
theorem section?_text (hne : ls ≠ []) :
    (Run.text ls).section? = some (.text (String.ofList (Text.joinLines ls))) := by
  obtain ⟨l, hl⟩ : ∃ l, l ∈ ls.head? := by
    obtain ⟨l, rest, rfl⟩ := List.exists_cons_of_ne_nil hne
    exact ⟨l, rfl⟩
  have hblank : ls.all Text.isBlankLine = false :=
    List.all_eq_false.mpr ⟨l, List.mem_of_mem_head? hl, by rw [h.first l hl]; decide⟩
  rw [Run.section?, hblank]
  simp only [h.dropBreaks_joinLines]
  rfl

end IsNormal

/-- A docstring is one text iff none of its lines opens a section outside fenced code. -/
theorem Docstring.parse_eq_text_iff {text : List Char} (hblank : Text.isBlankLine text = false) :
    parse text = ⟨[.text (String.ofList (normalize text))], []⟩ ↔
      Quiet false (Text.lines (normalize text)) := by
  have hnormal : IsNormal (Text.lines (normalize text)) := by
    rw [lines_normalize]
    exact isNormal_normalLines text
  have hjoin : Text.joinLines (Text.lines (normalize text)) = normalize text := by
    rw [lines_normalize, normalize]
  have hne : Text.lines (normalize text) ≠ [] := by
    intro hnil
    rw [← Text.isBlankLine_normalize, ← hjoin, hnil] at hblank
    cases hblank
  have hcut := isCut_runsFrom false (Text.lines (normalize text))
  have hparse : parse text = _ := ofRuns_eq (runs (Text.lines (normalize text)))
  rw [← hcut.isText_iff, hparse]
  constructor
  · intro heq r hr
    obtain ⟨hsections, hfaults⟩ := Docstring.mk.inj heq
    -- a section under a title would be a section that is no text, or a fault
    refine Run.isText_of_read (List.filterMap_eq_nil_iff.mp hfaults r hr) fun s hs => ?_
    have hmem : s ∈ (runs (Text.lines (normalize text))).filterMap Run.section? :=
      List.mem_filterMap.mpr ⟨r, hr, hs⟩
    rw [hsections, List.mem_singleton] at hmem
    rw [hmem]
    rfl
  · intro htext
    have hruns : runs (Text.lines (normalize text)) = [.text (Text.lines (normalize text))] :=
      hcut.eq_text hne htext
    rw [hruns, List.filterMap_cons, hnormal.section?_text hne, hjoin]
    rfl

/-! ## Code between backquotes -/

/-- A line without a line feed in it and without blanks at its end. -/
structure IsLine (l : List Char) : Prop where
  free : '\n' ∉ l
  ends : ∀ c ∈ l.getLast?, Text.isBlank c = false

instance (l : List Char) : Decidable (IsLine l) :=
  decidable_of_iff ('\n' ∉ l ∧ Text.notBlank l.getLast? = true)
    ⟨fun h => ⟨h.1, Text.notBlank_iff.mp h.2⟩, fun h => ⟨h.free, Text.notBlank_iff.mpr h.ends⟩⟩

/-- A fence of backquotes. -/
def backquotes : List Char := ['`', '`', '`']

/-- The lines of fenced code. The info stands behind the first fence. -/
def fencedLines (info : List Char) (code : List (List Char)) : List (List Char) :=
  (backquotes ++ info) :: (code ++ [backquotes])

/-- The text of fenced code. -/
def fencedText (info : List Char) (code : List (List Char)) : List Char :=
  Text.joinLines (fencedLines info code)

/-- What is before and behind the code opens no section. -/
theorem quiet_fencedLines_iff (info : List Char) (code : List (List Char)) :
    Quiet false (fencedLines info code) ↔ Quiet true code := by
  have hopens : ∀ l after, opens? l (after ++ [backquotes]) = opens? l after := by
    intro l after
    cases after with
    | nil => rfl
    | cons next after => rfl
  constructor
  · intro hquiet before l after heq hfence hfenced
    rw [← hopens]
    refine hquiet ((backquotes ++ info) :: before) l (after ++ [backquotes]) ?_ hfence hfenced
    rw [fencedLines, heq, List.append_assoc]
    rfl
  · intro hquiet before l after heq hfence hfenced
    cases before with
    | nil =>
      obtain ⟨rfl, -⟩ := List.cons.inj heq
      cases hfence
    | cons k before =>
      obtain ⟨rfl, hcode⟩ := List.cons.inj heq
      rcases List.eq_nil_or_concat' after with rfl | ⟨after, j, rfl⟩
      · rfl
      · have hconcat : code ++ [backquotes] = (before ++ l :: after) ++ [j] := by
          rw [hcode, List.append_assoc]
          rfl
        obtain ⟨hcode, hclose⟩ := List.append_inj' hconcat rfl
        rw [← List.singleton_inj.mp hclose, hopens]
        exact hquiet before l after hcode hfence hfenced

/-- Code without fences opens no section. -/
theorem quiet_of_noFence {code : List (List Char)} (h : ∀ l ∈ code, isFence l = false) :
    Quiet true code := by
  intro before l after heq _ hfenced
  have hopen : fencedAfter true before = true := by
    have hbefore : ∀ k ∈ before, isFence k = false := by
      intro k hk
      exact h k (by rw [heq]; exact List.mem_append_left _ hk)
    clear heq hfenced
    induction before with
    | nil => rfl
    | cons k before ih =>
      rw [fencedAfter, List.foldl_cons, hbefore k List.mem_cons_self, Bool.xor_false]
      exact ih fun j hj => hbefore j (List.mem_cons_of_mem k hj)
  rw [hopen] at hfenced
  cases hfenced

theorem isNormal_fencedLines {info : List Char} {code : List (List Char)} (hinfo : IsLine info)
    (hcode : ∀ l ∈ code, IsLine l) : IsNormal (fencedLines info code) := by
  have hclose : IsLine backquotes := by decide
  have hopen : IsLine (backquotes ++ info) := by
    constructor
    · rw [List.mem_append, not_or]
      exact ⟨by decide, hinfo.free⟩
    · intro c hc
      rw [List.getLast?_append] at hc
      rcases Option.or_eq_some_iff.mp hc with hc | ⟨-, hc⟩
      · exact hinfo.ends c hc
      · exact hclose.ends c hc
  have hlines : ∀ l ∈ fencedLines info code, IsLine l := by
    intro l hl
    rcases List.mem_cons.mp hl with rfl | hl
    · exact hopen
    · rcases List.mem_append.mp hl with hl | hl
      · exact hcode l hl
      · rw [List.mem_singleton.mp hl]
        exact hclose
  refine ⟨fun l hl => (hlines l hl).free, fun l hl => (hlines l hl).ends, ?_, ?_, Or.inr ?_⟩
  · intro l hl
    cases hl
    rfl
  · intro l hl
    rw [fencedLines, ← List.cons_append, List.getLast?_concat] at hl
    cases hl
    rfl
  · exact ⟨'`', '`' :: '`' :: info, List.mem_cons_self, by decide⟩

/-- Fenced code is read as one text, word for word, iff no line of the code opens a section where a
fence in the code has closed the code. So it is read word for word if there are no fences in it. -/
theorem Docstring.parse_fencedText {info : List Char} {code : List (List Char)}
    (hinfo : IsLine info) (hcode : ∀ l ∈ code, IsLine l) :
    (parse (fencedText info code) = ⟨[.text (String.ofList (fencedText info code))], []⟩ ↔
      Quiet true code) ∧
    ((∀ l ∈ code, isFence l = false) →
      parse (fencedText info code) = ⟨[.text (String.ofList (fencedText info code))], []⟩) := by
  have hnormal := isNormal_fencedLines hinfo hcode
  have hlines : normalLines (fencedText info code) = fencedLines info code :=
    hnormal.normalLines_joinLines
  have hnormalize : normalize (fencedText info code) = fencedText info code := by
    rw [normalize, hlines, fencedText]
  have hblank : Text.isBlankLine (fencedText info code) = false := by
    rw [fencedText, Text.isBlankLine_joinLines]
    rfl
  have hiff := parse_eq_text_iff hblank
  rw [lines_normalize, hlines, hnormalize, quiet_fencedLines_iff] at hiff
  exact ⟨hiff, fun hfences => hiff.mpr (quiet_of_noFence hfences)⟩

namespace Docstring

/-- Code that looks like a section. -/
def titleInCode : List (List Char) := ["Note:".toList, "    in code".toList]

/-- A title in fenced code opens no section. -/
theorem titleInCode_read :
    (IsLine "python".toList ∧ ∀ l ∈ titleInCode, IsLine l ∧ isFence l = false) ∧
      parse (fencedText "python".toList titleInCode) =
        ⟨[.text "```python\nNote:\n    in code\n```"], []⟩ := by
  have hlines : IsLine "python".toList ∧ ∀ l ∈ titleInCode, IsLine l ∧ isFence l = false := by
    decide
  refine ⟨hlines, ?_⟩
  exact (parse_fencedText hlines.1 fun l hl => (hlines.2 l hl).1).2 fun l hl => (hlines.2 l hl).2

/-- Code with a line of tildes, and with what looks like a section below it. -/
def tildesInCode : List (List Char) := ["~~~".toList, "Note:".toList, "    in code".toList]

/-- The tildes close the code that backquotes opened, and the title in the code opens a section. So
code without lines that start with backquotes is not always read word for word. -/
theorem tildesInCode_opens_section :
    parse (fencedText [] tildesInCode) =
        ⟨[.text "```\n~~~", .admonition "Note" (some "note") "in code", .text "```"], []⟩ ∧
      ¬∀ info code, IsLine info →
        (∀ l ∈ code, IsLine l ∧ ¬backquotes <+: Text.trimStart l) →
        parse (fencedText info code) = ⟨[.text (String.ofList (fencedText info code))], []⟩ := by
  have hread : parse (fencedText [] tildesInCode) =
      ⟨[.text "```\n~~~", .admonition "Note" (some "note") "in code", .text "```"], []⟩ := by
    decide +kernel
  refine ⟨hread, fun h => ?_⟩
  have hverbatim := h [] tildesInCode (by decide) (by decide)
  rw [hread] at hverbatim
  exact absurd hverbatim (by decide)

end Docstring

end ApiPages
