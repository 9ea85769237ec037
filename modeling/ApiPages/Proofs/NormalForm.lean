import ApiPages.Proofs.BlankTexts
import ApiPages.Proofs.DocstringBlocks

/-!
# The normal form of docstrings

The normal form of a docstring is one that no further step of normalizing changes, and that does not
depend on how far the docstring as a whole is moved to the right. Indentation is counted in bytes,
and a blank may have up to three of them. The margin of a text can then lie inside a blank of
another line; such a line loses all its leading blanks, wherever the text as a whole stands.

Results:

* `Text.margin_dedent`: lines that are moved to the left have one at the margin.
* `Text.dedent_map_shiftBy`: lines that are moved to the right together are moved back to where they
  were.
* `Text.linesInclusive_indentText`: moving a text to the right moves its lines.
* `isNormal_normalLines`, `IsNormal.normalLines_joinLines`: what is left of a docstring is normal,
  and normal lines stay.
* `map_trim_normalLines`: no line of a docstring is lost but blank ones around it.
* `normalize_canonical`: the normal form of a docstring.
-/

namespace ApiPages

namespace Text

/-! ## Lines with their line feeds -/

/-- The lines of some text, with their line feeds: only the last one may have none. -/
inductive AreLines : List (List Char) → Prop
  | nil : AreLines []
  | last {l : List Char} (hfree : '\n' ∉ l) (hne : l ≠ []) : AreLines [l]
  | cons {l : List Char} {ls : List (List Char)} (hfree : '\n' ∉ l) (hrest : AreLines ls) :
      AreLines ((l ++ ['\n']) :: ls)

theorem areLines_linesInclusive (s : List Char) : AreLines (linesInclusive s) := by
  induction s with
  | nil => exact .nil
  | cons c s ih =>
    by_cases hc : c = '\n'
    · rw [linesInclusive, if_pos hc, hc]
      exact .cons List.not_mem_nil ih
    · have hfree : ∀ {l : List Char}, '\n' ∉ l → '\n' ∉ c :: l := by
        intro l hl
        rw [List.mem_cons, not_or]
        exact ⟨Ne.symm hc, hl⟩
      rw [linesInclusive, if_neg hc]
      generalize linesInclusive s = ls at ih
      cases ih with
      | nil => exact .last (hfree List.not_mem_nil) (List.cons_ne_nil c [])
      | last hl _ => exact .last (hfree hl) (List.cons_ne_nil c _)
      | cons hl hrest => exact .cons (hfree hl) hrest

namespace AreLines

variable {ls : List (List Char)}

/-- Lines with their line feeds are told from the text that they make up. -/
theorem linesInclusive_flatten (h : AreLines ls) : linesInclusive ls.flatten = ls := by
  induction h with
  | nil => rfl
  | last hfree hne =>
    rw [List.flatten_singleton, linesInclusive_of_not_mem hfree hne]
  | cons hfree _ ih =>
    rw [List.flatten_cons, List.append_assoc, List.singleton_append, linesInclusive_append hfree,
      ih]

/-- What is left of a line without blanks at its end has no line feed in it. -/
theorem newline_not_mem_trimEnd (h : AreLines ls) : ∀ l ∈ ls, '\n' ∉ trimEnd l := by
  have hfeed : ∀ c ∈ ['\n'], isBlank c = true := List.all_eq_true.mp (by decide)
  intro l hl
  induction h with
  | nil => cases hl
  | last hfree _ =>
    cases List.mem_singleton.mp hl
    exact mt mem_of_mem_trimEnd hfree
  | cons hfree _ ih =>
    rcases List.mem_cons.mp hl with rfl | hl
    · rw [trimEnd, dropEndWhile_append_of_all _ hfeed]
      exact mt mem_of_mem_trimEnd hfree
    · exact ih hl

end AreLines

theorem map_trimEnd_lines (s : List Char) :
    (lines s).map trimEnd = (linesInclusive s).map trimEnd := by
  rw [lines, List.map_map]
  exact List.map_congr_left fun l _ => trimEnd_dropLineEnd l

/-! ## Moving to the right -/

/-- The text with `w` in front of every line that is not blank. -/
def indentText (w s : List Char) : List Char :=
  (linesInclusive s).flatMap fun l => if isBlankLine l then l else w ++ l

/-- Moving a text to the right moves its lines. -/
theorem linesInclusive_indentText {w : List Char} (hw : '\n' ∉ w) (s : List Char) :
    linesInclusive (indentText w s) =
      (linesInclusive s).map fun l => if isBlankLine l then l else w ++ l := by
  have hmoved : ∀ ls, AreLines ls →
      AreLines (ls.map fun l => if isBlankLine l then l else w ++ l) := by
    intro ls h
    have hfree : ∀ {l : List Char}, '\n' ∉ l → '\n' ∉ w ++ l := by
      intro l hl
      rw [List.mem_append, not_or]
      exact ⟨hw, hl⟩
    induction h with
    | nil => exact .nil
    | last hl hne =>
      rw [List.map_singleton]
      split
      · exact .last hl hne
      · exact .last (hfree hl) (List.append_ne_nil_of_right_ne_nil w hne)
    | cons hl _ ih =>
      rw [List.map_cons]
      split
      · exact .cons hl ih
      · rw [← List.append_assoc]
        exact .cons (hfree hl) ih
  rw [indentText, List.flatMap_def]
  exact (hmoved _ (areLines_linesInclusive s)).linesInclusive_flatten

/-- A moved line without the blanks at its end; a blank line stays where it is. -/
theorem trimEnd_moved {w : List Char} (hw : isBlankLine w = true) (l : List Char) :
    trimEnd (if isBlankLine l then l else w ++ l) = shiftBy w (trimEnd l) := by
  split
  · next hl =>
    rw [trimEnd_eq_nil_iff.mpr hl, shiftBy_eq_nil_iff.mpr rfl]
  · exact trimEnd_append_blanks hw l

/-! ## Moving to the left -/

/-- All the indentation is dropped as such. -/
theorem dropBytes?_indentation (l : List Char) :
    dropBytes? (indentation l) l = some (trimStart l) := by
  have h := dropBytes?_append (l.takeWhile isBlank) (l.dropWhile isBlank) 0
  rw [List.takeWhile_append_dropWhile, Nat.add_zero] at h
  rw [indentation, h, dropBytes?]
  rfl

theorem stripIndent_indentation (l : List Char) : stripIndent (indentation l) l = trimStart l := by
  rw [stripIndent, if_pos (Nat.le_refl _), dropBytes?_indentation]
  rfl

/-- Lines that are moved to the left have one at the margin. -/
theorem margin_dedent {ls : List (List Char)} {l : List Char} (hl : l ∈ ls)
    (hblank : isBlankLine l = false) : Margin (dedent ls) := by
  obtain ⟨k, hk, hkblank, hindent⟩ := (commonIndent_spec hl hblank).1
  have hstrip : stripIndent (commonIndent ls) k = trimStart k := by
    rw [← hindent, stripIndent_indentation]
  have hmem : trimStart k ∈ dedent ls := by
    rw [← hstrip]
    exact List.mem_map_of_mem hk
  cases htrim : trimStart k with
  | nil =>
    rw [← isBlankLine_trimStart, htrim] at hkblank
    cases hkblank
  | cons c r =>
    exact ⟨c, r, htrim ▸ hmem, head?_trimStart k c (by rw [htrim]; rfl)⟩

/-- Lines that are moved to the right together are moved back to where they were. -/
theorem dedent_map_shiftBy {w : List Char} (hw : isBlankLine w = true) {ls : List (List Char)}
    (hls : ∀ l ∈ ls, isBlankLine l = true → l = []) :
    dedent (ls.map (shiftBy w)) = dedent ls := by
  rw [dedent, dedent, List.map_map]
  apply List.map_congr_left
  intro l hl
  rw [Function.comp_apply]
  by_cases hnil : l = []
  · rw [shiftBy_eq_nil_iff.mpr hnil, hnil, stripIndent_nil, stripIndent_nil]
  · have hblank : isBlankLine l = false := by
      rw [Bool.eq_false_iff]
      exact mt (hls l hl) hnil
    rw [commonIndent_map_shiftBy hw hl hblank, shiftBy_of_ne_nil hnil, stripIndent_append hw]

end Text

/-! ## Normal lines -/

/-- The lines of a normal form. No line has blanks at its end, the first one and the last one are
not blank, and some line stands at the margin. -/
structure IsNormal (ls : List (List Char)) : Prop where
  free : ∀ l ∈ ls, '\n' ∉ l
  ends : ∀ l ∈ ls, ∀ c ∈ l.getLast?, Text.isBlank c = false
  first : ∀ l ∈ ls.head?, Text.isBlankLine l = false
  last : ∀ l ∈ ls.getLast?, Text.isBlankLine l = false
  margin : ls = [] ∨ Text.Margin ls

/-- The lines of a text without blanks at their ends and without empty lines around them. -/
def strippedLines (text : List Char) : List (List Char) :=
  let isEmpty : List Char → Bool := fun l => l == []
  Text.dropEndWhile isEmpty (((Text.lines text).map Text.trimEnd).dropWhile isEmpty)

theorem normalLines_eq_dedent (text : List Char) :
    normalLines text = Text.dedent (strippedLines text) :=
  rfl

section StrippedLines

variable {text l : List Char}

theorem mem_of_mem_strippedLines (h : l ∈ strippedLines text) :
    ∃ k ∈ Text.linesInclusive text, l = Text.trimEnd k := by
  have hmem := (List.dropWhile_suffix _).subset ((Text.dropEndWhile_prefix _ _).subset h)
  rw [Text.map_trimEnd_lines] at hmem
  obtain ⟨k, hk, rfl⟩ := List.mem_map.mp hmem
  exact ⟨k, hk, rfl⟩

theorem ends_of_mem_strippedLines (h : l ∈ strippedLines text) :
    ∀ c ∈ l.getLast?, Text.isBlank c = false := by
  obtain ⟨k, -, rfl⟩ := mem_of_mem_strippedLines h
  exact Text.getLast?_trimEnd k

theorem isBlankLine_of_mem_strippedLines (h : l ∈ strippedLines text) (hne : l ≠ []) :
    Text.isBlankLine l = false :=
  isBlankLine_eq_false hne (ends_of_mem_strippedLines h)

theorem isBlankLine_of_mem_head?_strippedLines (h : l ∈ (strippedLines text).head?) :
    Text.isBlankLine l = false := by
  refine isBlankLine_of_mem_strippedLines (List.mem_of_mem_head? h) ?_
  -- the first line that is not empty is still there when empty lines at the end are gone
  obtain ⟨rest, hrest⟩ := List.head?_eq_some_iff.mp h
  obtain ⟨dropped, hdropped⟩ := Text.dropEndWhile_prefix (fun l : List Char => l == [])
    (((Text.lines text).map Text.trimEnd).dropWhile fun l => l == [])
  have hhead := List.head?_dropWhile_not (fun l : List Char => l == [])
    ((Text.lines text).map Text.trimEnd)
  rw [← hdropped, show Text.dropEndWhile _ _ = _ from hrest] at hhead
  exact beq_eq_false_iff_ne.mp hhead

theorem isBlankLine_of_mem_getLast?_strippedLines (h : l ∈ (strippedLines text).getLast?) :
    Text.isBlankLine l = false := by
  refine isBlankLine_of_mem_strippedLines (List.mem_of_getLast? h) ?_
  exact beq_eq_false_iff_ne.mp (Text.getLast?_dropEndWhile _ _ l h)

/-- Moving a text to the right moves the lines that are left. -/
theorem strippedLines_indentText {w : List Char} (hw : Text.isBlankLine w = true)
    (hline : '\n' ∉ w) (text : List Char) :
    strippedLines (Text.indentText w text) = (strippedLines text).map (Text.shiftBy w) := by
  have hlines : (Text.lines (Text.indentText w text)).map Text.trimEnd =
      ((Text.lines text).map Text.trimEnd).map (Text.shiftBy w) := by
    rw [Text.map_trimEnd_lines, Text.map_trimEnd_lines, Text.linesInclusive_indentText hline,
      List.map_map, List.map_map]
    exact List.map_congr_left fun l _ => Text.trimEnd_moved hw l
  have hempty : (fun l : List Char => l == []) ∘ Text.shiftBy w = fun l => l == [] := by
    funext l
    rw [Function.comp_apply, Bool.eq_iff_iff, beq_iff_eq, beq_iff_eq, Text.shiftBy_eq_nil_iff]
  simp only [strippedLines, Text.dropEndWhile, hlines, List.dropWhile_map, ← List.map_reverse,
    hempty]

end StrippedLines

/-- What is left of a docstring is normal. -/
theorem isNormal_normalLines (text : List Char) : IsNormal (normalLines text) := by
  rw [normalLines_eq_dedent]
  constructor
  · intro l hl hnewline
    obtain ⟨k, hk, rfl⟩ := List.mem_map.mp hl
    obtain ⟨j, hj, rfl⟩ := mem_of_mem_strippedLines hk
    exact (Text.areLines_linesInclusive text).newline_not_mem_trimEnd j hj
      (Text.mem_of_mem_stripIndent hnewline)
  · intro l hl c hc
    obtain ⟨k, hk, rfl⟩ := List.mem_map.mp hl
    obtain ⟨blanks, -, hline⟩ := Text.exists_blanks_stripIndent
      (Text.commonIndent (strippedLines text)) k
    refine ends_of_mem_strippedLines hk c ?_
    rw [hline, List.getLast?_append, hc]
    rfl
  · intro l hl
    rw [Text.dedent, List.head?_map] at hl
    obtain ⟨k, hk, rfl⟩ := Option.map_eq_some_iff.mp hl
    rw [Text.isBlankLine_stripIndent]
    exact isBlankLine_of_mem_head?_strippedLines hk
  · intro l hl
    rw [Text.dedent, List.getLast?_map] at hl
    obtain ⟨k, hk, rfl⟩ := Option.map_eq_some_iff.mp hl
    rw [Text.isBlankLine_stripIndent]
    exact isBlankLine_of_mem_getLast?_strippedLines hk
  · cases hlines : strippedLines text with
    | nil => exact Or.inl rfl
    | cons l ls =>
      have hl : l ∈ (strippedLines text).head? := by rw [hlines]; rfl
      exact Or.inr (Text.margin_dedent List.mem_cons_self
        (isBlankLine_of_mem_head?_strippedLines hl))

namespace IsNormal

variable {ls : List (List Char)} (h : IsNormal ls)
include h

theorem ne_nil_of_mem_getLast? : ∀ l ∈ ls.getLast?, l ≠ [] := by
  rintro l hl rfl
  exact absurd (h.last [] hl) (by decide)

/-- Normal lines are the lines of their text. -/
theorem lines_joinLines : Text.lines (Text.joinLines ls) = ls :=
  Text.lines_joinLines h.free h.ne_nil_of_mem_getLast? h.ends

/-- Normal lines stay as they are. -/
theorem normalLines_joinLines : normalLines (Text.joinLines ls) = ls := by
  have htrim : ls.map Text.trimEnd = ls := by
    rw [List.map_congr_left fun l hl => Text.trimEnd_of_getLast? (h.ends l hl), List.map_id']
  have hfirst : ls.dropWhile (fun l => l == []) = ls := by
    cases hls : ls with
    | nil => rfl
    | cons l rest =>
      have hne : l ≠ [] := by
        rintro rfl
        exact absurd (h.first [] (by rw [hls]; rfl)) (by decide)
      rw [List.dropWhile_cons, if_neg (by simp [hne])]
  have hlast : Text.dropEndWhile (fun l => l == []) ls = ls := by
    apply Text.dropEndWhile_of_getLast?
    intro l hl
    exact beq_eq_false_iff_ne.mpr (h.ne_nil_of_mem_getLast? l hl)
  have hdedent : Text.dedent ls = ls := by
    rcases h.margin with rfl | hmargin
    · rfl
    · exact Text.dedent_of_margin hmargin
  rw [normalLines, h.lines_joinLines, htrim, hfirst]
  simp only [hlast, hdedent]

end IsNormal

theorem lines_normalize (text : List Char) : Text.lines (normalize text) = normalLines text :=
  (isNormal_normalLines text).lines_joinLines

/-- The normal form does not depend on how far a docstring is moved to the right. -/
theorem normalize_indentText {w : List Char} (hw : Text.isBlankLine w = true) (hline : '\n' ∉ w)
    (text : List Char) : normalize (Text.indentText w text) = normalize text := by
  have hblank : ∀ l ∈ strippedLines text, Text.isBlankLine l = true → l = [] := by
    intro l hl hblank
    by_contra hne
    rw [isBlankLine_of_mem_strippedLines hl hne] at hblank
    cases hblank
  rw [normalize, normalLines_eq_dedent, strippedLines_indentText hw hline,
    Text.dedent_map_shiftBy hw hblank, ← normalLines_eq_dedent, normalize]

/-- But for the blanks around them, the normal lines are the lines of the text, without blank ones
at its ends. -/
theorem map_trim_normalLines (text : List Char) :
    (normalLines text).map Text.trim =
      Text.dropEndWhile (fun l => l == [])
        (((Text.lines text).map Text.trim).dropWhile fun l => l == []) := by
  have hstrip : (normalLines text).map Text.trim = (strippedLines text).map Text.trim := by
    rw [normalLines_eq_dedent, Text.dedent, List.map_map]
    exact List.map_congr_left fun l _ => Text.trim_stripIndent _ l
  have hempty : (fun l : List Char => l == []) ∘ Text.trim =
      (fun l : List Char => l == []) ∘ Text.trimEnd := by
    funext l
    rw [Function.comp_apply, Function.comp_apply, Bool.eq_iff_iff, beq_iff_eq, beq_iff_eq,
      Text.trim_eq_nil_iff, Text.trimEnd_eq_nil_iff]
  simp only [hstrip, strippedLines, Text.dropEndWhile, List.dropWhile_map, ← List.map_reverse,
    hempty, List.map_map]
  exact List.map_congr_left fun l _ => Text.trim_trimEnd l

/-- The normal form of a docstring is a canonical form. It is its own normal form. It is made up of
normal lines, which are those of the docstring but for blanks. Blanks of any kind in front of all
lines that are not blank change neither the normal form nor what the docstring is read as. And a
docstring of normal lines is left as it is. -/
theorem normalize_canonical (text : List Char) :
    normalize (normalize text) = normalize text ∧
      Text.joinLines (Text.lines (normalize text)) = normalize text ∧
      IsNormal (Text.lines (normalize text)) ∧
      (Text.lines (normalize text)).map Text.trim =
        Text.dropEndWhile (fun l => l == [])
          (((Text.lines text).map Text.trim).dropWhile fun l => l == []) ∧
      (∀ w, Text.isBlankLine w = true → '\n' ∉ w →
        normalize (Text.indentText w text) = normalize text ∧
          Docstring.parse (Text.indentText w text) = Docstring.parse text) ∧
      ∀ ls, IsNormal ls → normalize (Text.joinLines ls) = Text.joinLines ls := by
  have hstays : ∀ ls, IsNormal ls → normalize (Text.joinLines ls) = Text.joinLines ls := by
    intro ls hls
    rw [normalize, hls.normalLines_joinLines]
  have hnormal := isNormal_normalLines text
  rw [lines_normalize]
  refine ⟨hstays _ hnormal, rfl, hnormal, map_trim_normalLines text, fun w hw hline => ?_, hstays⟩
  have hshift := normalize_indentText hw hline text
  refine ⟨hshift, ?_⟩
  rw [Docstring.parse, hshift, Docstring.parse]

/-- A docstring whose margin of one byte lies inside the first blank of its second line. -/
def mixedIndents : String := " Reads:\n\u3000\u3000a page.\r\n   \n"

/-- The second line loses both its blanks, also where all lines stand behind a wide blank. -/
theorem mixedIndents_canonical :
    String.ofList (normalize mixedIndents.toList) = "Reads:\na page." ∧
      String.ofList (Text.indentText ['\u2003'] mixedIndents.toList) =
        "\u2003 Reads:\n\u2003\u3000\u3000a page.\r\n   \n" ∧
      normalize (Text.indentText ['\u2003'] mixedIndents.toList) = normalize mixedIndents.toList ∧
      Docstring.parse (Text.indentText ['\u2003'] mixedIndents.toList) =
        Docstring.parse mixedIndents.toList :=
  ⟨by decide +kernel, by decide +kernel,
    (normalize_canonical mixedIndents.toList).2.2.2.2.1 ['\u2003'] (by decide) (by decide)⟩

end ApiPages
