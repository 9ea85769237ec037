import ApiPages.Docstring.Basic
import ApiPages.Proofs.LineLaws
import ApiPages.Proofs.SplitLaws
import Mathlib.Data.List.Chain

/-!
# The format of docstrings

How sections are written down: free text as it is, all else under a title and moved to the right,
and one empty line between sections.

```
Look something up.

Args:
    key (str): What to look for.
        Is compared as it is.
    **options: What else there is.

Returns:
    int: The number of hits.

Note:
    Is slow.
```

What is written down has to be fit for it; a text that looks like a section, say, would be read as
one.

* `DocSection.print`, `Docstring.print` — a section and a docstring as text.
* `DocSection.Fit` — the section can be told from its text.

Results:

* `IsDescription.joinDescription_eq`: a description is put together again from its lines.
* `map_trimEnd_labelled`, `trimEnd_label`: what is left of the lines of an entry when blanks at line
  ends are gone.
-/

namespace ApiPages

/-! ## Printing -/

/-- The lines of a string. -/
def linesOf (s : String) : List (List Char) := Text.splitOn '\n' s.toList

/-- A text with a label in front: its first line is moved to the right by four, the others by
`n`. -/
def labelled (label : List Char) (n : Nat) (s : String) : List (List Char) :=
  Text.indent 4 (label ++ (linesOf s).headD []) :: (linesOf s).tail.map (Text.indent n)

/-- The name and the type of a parameter. -/
def DocParameter.header (i : DocParameter) : List Char :=
  match i.typeText with
  | some t => i.name.toList ++ ' ' :: '(' :: t.toList ++ [')']
  | none => i.name.toList

/-- What stands in front of the description of a parameter. -/
def DocParameter.label (i : DocParameter) : List Char := i.header ++ [':', ' ']

/-- What stands in front of the description of a returned value. -/
def returnLabel : Option String → List Char
  | some t => t.toList ++ [':', ' ']
  | none => []

/-- The lines of a section. -/
def DocSection.print : DocSection → List (List Char)
  | .text s => linesOf s
  | .parameters items =>
    ['A', 'r', 'g', 's', ':'] :: items.flatMap fun i => labelled i.label 8 i.description
  | .returns t s => ['R', 'e', 't', 'u', 'r', 'n', 's', ':'] :: labelled (returnLabel t) 4 s
  | .admonition title _ body =>
    (title.toList ++ [':']) ::
      (linesOf body).map fun l => if Text.isBlankLine l then [] else Text.indent 4 l

/-- The text of a docstring: its sections with an empty line between them. -/
def Docstring.print (sections : List DocSection) : String :=
  String.ofList (Text.joinLines (List.intercalate [[]] (sections.map DocSection.print)))

/-! ## What can be printed -/

/-- No line of the string ends with a blank. -/
def LinesTrimmed (s : String) : Prop :=
  ∀ l ∈ linesOf s, ∀ c ∈ l.getLast?, Text.isBlank c = false

instance (s : String) : Decidable (LinesTrimmed s) :=
  decidable_of_iff (∀ l ∈ linesOf s, Text.notBlank l.getLast? = true)
    (forall₂_congr fun _ _ => Text.notBlank_iff)

/-- The name of a parameter: up to two stars and an identifier. -/
def IsParameterName (name : List Char) : Prop :=
  ∃ stars c rest, name = List.replicate stars '*' ++ c :: rest ∧ stars ≤ 2 ∧
    Text.isIdentifierStart c = true ∧ ∀ x ∈ rest, Text.isIdentifierRest x = true

/-- The type of a returned value: a name, with one bracketed part or none. -/
def IsReturnType (t : List Char) : Prop :=
  ∃ name bracket, t = name ++ bracket ∧ name ≠ [] ∧ (∀ c ∈ name, isTypeChar c = true) ∧
    (bracket = [] ∨ ∃ inner, bracket = '[' :: inner ++ [']'] ∧ ']' ∉ inner)

/-- A title: a letter, and letters, digits, spaces, underscores or dashes. -/
def IsTitle (title : List Char) : Prop :=
  ∃ c rest, title = c :: rest ∧ Text.isLetter c = true ∧ ∀ x ∈ rest, isTitleChar x = true

/-- A line of a title, a colon and perhaps blanks. -/
def IsTitleLine (l : List Char) : Prop :=
  ∃ title blanks, l = title ++ ':' :: blanks ∧ IsTitle title ∧ Text.isBlankLine blanks = true

/-- Free text: it starts at the margin, has no blanks at the end and no fenced code, and none of its
lines opens a section. -/
structure IsFreeText (s : String) : Prop where
  ne : s ≠ ""
  lines : LinesTrimmed s
  trimmed : Text.Trimmed s.toList
  noFence : ∀ l ∈ linesOf s, isFence l = false
  noTitle : (linesOf s).IsChain fun l next => IsTitleLine l → isBlockText next = false

/-- A description that starts on a line of its own or behind a label. Blanks at its ends would be
lost, and so would common indentation of the lines below the first. -/
structure IsDescription (s : String) : Prop where
  lines : LinesTrimmed s
  trimmed : Text.Trimmed s.toList
  margin : (linesOf s).tail = [] ∨ Text.Margin (linesOf s).tail

/-- The parameter can be told from its lines. -/
structure DocParameter.Fit (i : DocParameter) : Prop where
  name : IsParameterName i.name.toList
  typeText : ∀ t ∈ i.typeText, Text.Trimmed t.toList ∧ ')' ∉ t.toList ∧ '\n' ∉ t.toList
  description : IsDescription i.description

/-- The section can be told from its lines. -/
inductive DocSection.Fit : DocSection → Prop
  | text {s : String} (h : IsFreeText s) : Fit (.text s)
  | parameters {items : List DocParameter} (hne : items ≠ []) (hitems : ∀ i ∈ items, i.Fit) :
      Fit (.parameters items)
  | typedReturns {t s : String} (htype : IsReturnType t.toList) (hline : '\n' ∉ t.toList)
      (hne : s ≠ "") (hdescription : IsDescription s) : Fit (.returns (some t) s)
  | untypedReturns {s : String} (hne : s ≠ "") (hdescription : IsDescription s)
      (huntyped : ∀ t blanks rest, IsReturnType t → Text.isBlankLine blanks = true →
        (linesOf s).headD [] ≠ t ++ blanks ++ ':' :: rest) : Fit (.returns none s)
  | admonition {title body : String} (htitle : IsTitle title.toList)
      (htrimmed : Text.Trimmed title.toList)
      (hother : String.ofList (title.toList.map Char.toLower) ∉ parameterTitles ++ returnTitles)
      (hlines : LinesTrimmed body)
      (hfirst : ∀ l ∈ (linesOf body).head?, Text.isBlankLine l = false)
      (hlast : ∀ l ∈ (linesOf body).getLast?, Text.isBlankLine l = false)
      (hmargin : Text.Margin (linesOf body)) :
      Fit (.admonition title (tagOf title) body)

/-! ## Characters -/

namespace Text

/-- The blank characters. -/
def blankChars : List Char :=
  (blankRanges.flatMap fun r => List.range' r.1 (r.2 + 1 - r.1)).map Char.ofNat

theorem mem_blankChars {c : Char} (h : isBlank c = true) : c ∈ blankChars := by
  rw [isBlank, inRanges, List.any_eq_true] at h
  obtain ⟨r, hr, hc⟩ := h
  obtain ⟨hlow, hhigh⟩ := Bool.and_eq_true_iff.mp hc
  refine List.mem_map.mpr ⟨c.toNat, List.mem_flatMap.mpr ⟨r, hr, ?_⟩, Char.ofNat_toNat c⟩
  rw [List.mem_range'_1]
  simp only [decide_eq_true_eq] at hlow hhigh
  omega

/-- A property that no blank character has. -/
theorem isBlank_eq_false {p : Char → Bool} (hp : blankChars.any p = false) {c : Char}
    (h : p c = true) : isBlank c = false := by
  by_contra hblank
  rw [Bool.not_eq_false] at hblank
  exact List.any_eq_false.mp hp c (mem_blankChars hblank) h

theorem isBlank_of_isLetter {c : Char} (h : isLetter c = true) : isBlank c = false :=
  isBlank_eq_false (by decide +kernel) h

theorem isBlank_of_isIdentifierStart {c : Char} (h : isIdentifierStart c = true) :
    isBlank c = false :=
  isBlank_eq_false (by decide +kernel) h

theorem isBlank_of_isTypeChar {c : Char} (h : isTypeChar c = true) : isBlank c = false :=
  isBlank_eq_false (by decide +kernel) h

end Text

/-! ## Lines of strings -/

theorem joinLines_linesOf (s : String) : Text.joinLines (linesOf s) = s.toList :=
  Text.joinWith_splitOn '\n' s.toList

theorem linesOf_eq_cons (s : String) :
    linesOf s = (linesOf s).headD [] :: (linesOf s).tail := by
  cases h : linesOf s with
  | nil => exact absurd h (Text.splitOn_ne_nil '\n' s.toList)
  | cons l ls => rfl

theorem newline_not_mem_of_mem_linesOf {s : String} {l : List Char} (h : l ∈ linesOf s) :
    '\n' ∉ l :=
  Text.sep_not_mem_of_mem_splitOn h

/-- The first line of a string starts like the string. -/
theorem head?_headD_linesOf (s : String) (hs : ∀ c ∈ s.toList.head?, Text.isBlank c = false) :
    ((linesOf s).headD []).head? = s.toList.head? := by
  unfold linesOf
  cases h : s.toList with
  | nil => rfl
  | cons c r =>
    rw [h] at hs
    have hc : c ≠ '\n' := by
      rintro rfl
      exact absurd (hs '\n' rfl) (by decide)
    rw [Text.splitOn, if_neg hc]
    cases Text.splitOn '\n' r <;> rfl

/-- The last line of a string is not empty if the string does not end with a line feed. -/
theorem ne_nil_of_mem_getLast?_linesOf {s : String} (hne : s ≠ "")
    (hs : ∀ c ∈ s.toList.getLast?, Text.isBlank c = false) :
    ∀ l ∈ (linesOf s).getLast?, l ≠ [] := by
  rintro l hl rfl
  obtain ⟨before, hbefore⟩ := List.getLast?_eq_some_iff.mp hl
  have hjoin := joinLines_linesOf s
  rw [hbefore] at hjoin
  cases before with
  | nil =>
    apply hne
    rw [← String.toList_inj, ← hjoin]
    rfl
  | cons k ks =>
    rw [Text.joinLines, Text.joinWith_append (List.cons_ne_nil k ks) (List.cons_ne_nil [] [])]
      at hjoin
    have hlast : s.toList.getLast? = some '\n' := by
      rw [← hjoin]
      simp [Text.joinWith]
    exact absurd (hs '\n' hlast) (by decide)

namespace IsDescription

variable {s : String}

/-- The first line of a description has no blanks at its ends. -/
theorem trimmed_headD (h : IsDescription s) : Text.Trimmed ((linesOf s).headD []) := by
  constructor
  · rw [head?_headD_linesOf s h.trimmed.starts]
    exact h.trimmed.starts
  · apply h.lines
    rw [linesOf_eq_cons s]
    exact List.mem_cons_self

theorem headD_ne_nil (h : IsDescription s) (hne : s ≠ "") : (linesOf s).headD [] ≠ [] := by
  intro hnil
  have hhead := head?_headD_linesOf s h.trimmed.starts
  rw [hnil, List.head?_nil] at hhead
  apply hne
  rw [← String.toList_inj]
  exact List.head?_eq_none_iff.mp hhead.symm

theorem trimEnd_of_mem_tail (h : IsDescription s) {l : List Char} (hl : l ∈ (linesOf s).tail) :
    Text.trimEnd l = l :=
  Text.trimEnd_of_getLast? (h.lines l (List.mem_of_mem_tail hl))

/-- A description that goes on below its first line is put together again. -/
theorem joinDescription_eq (h : IsDescription s) (n : Nat) :
    joinDescription ((linesOf s).headD []) ((linesOf s).tail.map (Text.shift n)) = s := by
  have hdedent : Text.dedent ((linesOf s).tail.map (Text.shift n)) = (linesOf s).tail := by
    rcases h.margin with hnil | hmargin
    · rw [hnil]
      rfl
    · exact Text.dedent_map_shift hmargin n
  rw [joinDescription, hdedent, ← linesOf_eq_cons, joinLines_linesOf, h.trimmed.trim_eq,
    String.ofList_toList]

end IsDescription

/-! ## Entries -/

/-- The lines of an entry at the margin: its first line, and the others moved to the right. -/
def entryBlock (label : List Char) (n : Nat) (s : String) : List (List Char) :=
  Text.trimEnd (label ++ (linesOf s).headD []) :: (linesOf s).tail.map (Text.shift n)

theorem map_trimEnd_labelled {s : String} (h : IsDescription s) (label : List Char) (n : Nat) :
    (labelled label (4 + n) s).map Text.trimEnd = (entryBlock label n s).map (Text.shift 4) := by
  rw [labelled, entryBlock, List.map_cons, List.map_cons, Text.trimEnd_indent, List.map_map,
    List.map_map]
  congr 1
  apply List.map_congr_left
  intro l hl
  rw [Function.comp_apply, Function.comp_apply, Text.trimEnd_indent, h.trimEnd_of_mem_tail hl,
    Text.shift_shift]

/-- Behind a label only the blank of the label can be lost. -/
theorem trimEnd_label (start first : List Char) :
    Text.trimEnd (start ++ ':' :: ' ' :: first) = start ++ ':' :: Text.trimEnd (' ' :: first) := by
  have hsplit : start ++ ':' :: ' ' :: first = (start ++ [':']) ++ ' ' :: first := by simp
  have hcolon : Text.trimEnd (start ++ [':']) = start ++ [':'] := by
    apply Text.trimEnd_of_getLast?
    intro c hc
    rw [List.getLast?_concat, Option.mem_some_iff] at hc
    rw [← hc]
    decide
  rw [hsplit]
  unfold Text.trimEnd at hcolon ⊢
  rw [Text.dropEndWhile_append]
  split
  · next hnil =>
    rw [hcolon, hnil]
  · rw [List.append_assoc]
    rfl

theorem trim_trimEnd_cons {first : List Char} (h : Text.Trimmed first) :
    Text.trim (Text.trimEnd (' ' :: first)) = first := by
  by_cases hnil : first = []
  · rw [hnil]
    decide
  · have hends : Text.trimEnd (' ' :: first) = ' ' :: first := by
      apply Text.trimEnd_of_getLast?
      rw [List.getLast?_cons_of_ne_nil hnil]
      exact h.ends
    have hstart : Text.trimStart (' ' :: first) = Text.trimStart first := by
      rw [Text.trimStart, List.dropWhile_cons, if_pos (by decide)]
      rfl
    rw [hends, Text.trim, hstart, Text.trimStart_of_head? h.starts,
      Text.trimEnd_of_getLast? h.ends]

end ApiPages
