import ApiPages.Docstring.Basic
import ApiPages.Proofs.LineLaws

/-!
# Blank texts

Trimming, cutting at line feeds, joining and moving to the margin take and put blanks only, so they
neither make a text blank nor keep it from being blank.

Results:

* `isBlankLine_joinLines`, `all_isBlankLine_lines`: texts and their lines.
* `exists_blanks_stripIndent`: a line without some of its indentation.
* `isBlankLine_normalize`: only a blank docstring has a blank normal form.
* `Docstring.sections_parse_of_isBlankLine`: a blank docstring has no sections.
-/

namespace ApiPages.Text

/-- Whether all entries have a property does not depend on entries at the front that have it. -/
theorem all_dropWhile {α : Type} {p q : α → Bool} (h : ∀ x, q x = true → p x = true) (s : List α) :
    (s.dropWhile q).all p = s.all p := by
  have htake : (s.takeWhile q).all p = true := by
    rw [List.all_eq_true]
    intro x hx
    exact h x (List.mem_takeWhile_imp hx)
  rw [← List.takeWhile_append_dropWhile (p := q) (l := s), List.all_append, htake, Bool.true_and,
    List.takeWhile_append_dropWhile]

/-- Nor does it depend on such entries at the end. -/
theorem all_dropEndWhile {α : Type} {p q : α → Bool} (h : ∀ x, q x = true → p x = true)
    (s : List α) : (dropEndWhile q s).all p = s.all p := by
  rw [dropEndWhile, List.all_reverse, all_dropWhile h, List.all_reverse]

/-- A text that ends with no such entry is still in front when the end is dropped. -/
theorem prefix_dropEndWhile {p : Char → Bool} {k s : List Char}
    (hlast : ∀ c ∈ k.getLast?, p c = false) (h : k <+: s) : k <+: dropEndWhile p s := by
  obtain ⟨t, rfl⟩ := h
  rw [dropEndWhile_append, dropEndWhile_of_getLast? hlast]
  split
  · exact List.prefix_rfl
  · exact List.prefix_append _ _

theorem isBlankLine_trimStart (s : List Char) : isBlankLine (trimStart s) = isBlankLine s :=
  all_dropWhile (fun _ h => h) s

theorem isBlankLine_trimEnd (s : List Char) : isBlankLine (trimEnd s) = isBlankLine s :=
  all_dropEndWhile (fun _ h => h) s

/-- Trimming leaves nothing of a blank text only. -/
theorem trimEnd_eq_nil_iff {s : List Char} : trimEnd s = [] ↔ isBlankLine s = true := by
  constructor
  · intro h
    rw [← isBlankLine_trimEnd, h]
    rfl
  · intro h
    exact dropEndWhile_eq_nil (List.all_eq_true.mp h)

theorem trim_eq_nil_iff {s : List Char} : trim s = [] ↔ isBlankLine s = true := by
  rw [trim, trimEnd_eq_nil_iff, isBlankLine_trimStart]

/-- A text starts with the blanks that trimming takes from its front. -/
theorem exists_blanks_trimStart (s : List Char) :
    ∃ blanks, isBlankLine blanks = true ∧ s = blanks ++ trimStart s :=
  ⟨s.takeWhile isBlank, List.all_eq_true.mpr fun _ hc => List.mem_takeWhile_imp hc,
    List.takeWhile_append_dropWhile.symm⟩

/-- A text ends with the blanks that trimming takes from its end. -/
theorem exists_blanks_trimEnd (s : List Char) :
    ∃ blanks, isBlankLine blanks = true ∧ s = trimEnd s ++ blanks := by
  obtain ⟨blanks, hblanks, hs⟩ := exists_blanks_trimStart s.reverse
  refine ⟨blanks.reverse, ?_, ?_⟩
  · rw [isBlankLine, List.all_reverse]
    exact hblanks
  · rw [trimEnd, dropEndWhile, ← List.reverse_append]
    exact List.reverse_eq_iff.mp hs

theorem head?_trimStart (s : List Char) : ∀ c ∈ (trimStart s).head?, isBlank c = false := by
  intro c hc
  have hhead := List.head?_dropWhile_not isBlank s
  rw [← trimStart, hc] at hhead
  simpa using hhead

/-- Blanks at the end of a text may be trimmed beforehand. -/
theorem trim_trimEnd (s : List Char) : trim (trimEnd s) = trim s := by
  obtain ⟨blanks, hblanks, hs⟩ := exists_blanks_trimStart s
  have hends := trimEnd_append_blanks hblanks (trimStart s)
  rw [← hs] at hends
  rw [trim, trim, hends]
  by_cases hnil : trimEnd (trimStart s) = []
  · rw [hnil]
    rfl
  · have hstarts : ∀ c ∈ (trimEnd (trimStart s)).head?, isBlank c = false := by
      intro c hc
      obtain ⟨rest, hrest⟩ := exists_blanks_trimEnd (trimStart s)
      apply head?_trimStart s
      rw [hrest.2, List.head?_append, hc]
      rfl
    rw [shiftBy_of_ne_nil hnil, trimStart_append_blanks hblanks, trimStart_of_head? hstarts,
      trimEnd_of_getLast? (getLast?_trimEnd _)]

/-- Lines that are joined are blank together. -/
theorem isBlankLine_joinLines (ls : List (List Char)) :
    isBlankLine (joinLines ls) = ls.all isBlankLine := by
  induction ls with
  | nil => rfl
  | cons l ls ih =>
    cases ls with
    | nil => simp [joinLines, joinWith]
    | cons k ls =>
      have hfeed : isBlankLine ['\n'] = true := by decide
      rw [joinLines, joinWith, isBlankLine_append, isBlankLine_append, hfeed, Bool.and_true,
        ← joinLines, ih]
      rfl

/-- The lines of a text are blank together. -/
theorem all_isBlankLine_lines (s : List Char) : (lines s).all isBlankLine = isBlankLine s := by
  have hend : ∀ l, isBlankLine (dropLineEnd l) = isBlankLine l := by
    intro l
    rw [← isBlankLine_trimEnd, trimEnd_dropLineEnd, isBlankLine_trimEnd]
  have hflatten : ∀ ls : List (List Char), ls.all isBlankLine = isBlankLine ls.flatten := by
    intro ls
    induction ls with
    | nil => rfl
    | cons l ls ih => rw [List.all_cons, ih, List.flatten_cons, isBlankLine_append]
  rw [lines, List.all_map, funext (f := isBlankLine ∘ dropLineEnd) hend, hflatten,
    flatten_linesInclusive]

/-- Bytes of the indentation are blanks. -/
theorem exists_blanks_of_dropBytes? {n : Nat} {l r : List Char} (hn : n ≤ indentation l)
    (h : dropBytes? n l = some r) : ∃ blanks, isBlankLine blanks = true ∧ l = blanks ++ r := by
  induction n, l using dropBytes?.induct with
  | case1 s =>
    rw [dropBytes?] at h
    cases h
    exact ⟨[], rfl, rfl⟩
  | case2 n =>
    cases h
  | case3 n c s hsize ih =>
    rw [dropBytes?, if_pos hsize] at h
    have hblank : isBlank c = true := by
      by_contra hc
      rw [Bool.not_eq_true] at hc
      rw [indentation, List.takeWhile_cons, hc] at hn
      exact absurd hn (by simp [byteLength])
    have hrest : n + 1 - c.utf8Size ≤ indentation s := by
      rw [indentation, List.takeWhile_cons, hblank] at hn
      have hcons : byteLength (c :: s.takeWhile isBlank) = c.utf8Size + indentation s := rfl
      rw [if_pos rfl, hcons] at hn
      omega
    obtain ⟨blanks, hblanks, rfl⟩ := ih hrest h
    exact ⟨c :: blanks, by rw [isBlankLine_cons, hblank, hblanks]; rfl, rfl⟩
  | case4 n c s hsize =>
    rw [dropBytes?, if_neg hsize] at h
    cases h

/-- A line that is moved to the left loses blanks only. -/
theorem exists_blanks_stripIndent (n : Nat) (l : List Char) :
    ∃ blanks, isBlankLine blanks = true ∧ l = blanks ++ stripIndent n l := by
  unfold stripIndent
  split
  · next hn =>
    cases hdrop : dropBytes? n l with
    | some r => exact exists_blanks_of_dropBytes? hn hdrop
    | none => exact exists_blanks_trimStart l
  · exact exists_blanks_trimStart l

theorem mem_of_mem_stripIndent {c : Char} {n : Nat} {l : List Char} (h : c ∈ stripIndent n l) :
    c ∈ l := by
  obtain ⟨blanks, -, hl⟩ := exists_blanks_stripIndent n l
  rw [hl]
  exact List.mem_append_right blanks h

theorem isBlankLine_stripIndent (n : Nat) (l : List Char) :
    isBlankLine (stripIndent n l) = isBlankLine l := by
  obtain ⟨blanks, hblanks, hl⟩ := exists_blanks_stripIndent n l
  have hline := congrArg isBlankLine hl
  rw [isBlankLine_append, hblanks, Bool.true_and] at hline
  exact hline.symm

theorem trim_stripIndent (n : Nat) (l : List Char) : trim (stripIndent n l) = trim l := by
  obtain ⟨blanks, hblanks, hl⟩ := exists_blanks_stripIndent n l
  have hline := congrArg trim hl
  rw [trim, trim, trimStart_append_blanks hblanks] at hline
  exact hline.symm

/-- Only a blank docstring has a blank normal form. -/
theorem isBlankLine_normalize (text : List Char) :
    isBlankLine (normalize text) = isBlankLine text := by
  have hempty : ∀ l : List Char, (l == []) = true → isBlankLine l = true := by
    intro l hl
    rw [beq_iff_eq] at hl
    rw [hl]
    rfl
  have hstrip (ls : List (List Char)) : (dedent ls).all isBlankLine = ls.all isBlankLine := by
    rw [dedent, List.all_map]
    exact congrArg ls.all (funext fun l => isBlankLine_stripIndent _ l)
  have htrim (ls : List (List Char)) : (ls.map trimEnd).all isBlankLine = ls.all isBlankLine := by
    rw [List.all_map]
    exact congrArg ls.all (funext isBlankLine_trimEnd)
  rw [normalize, isBlankLine_joinLines, normalLines]
  simp only [hstrip, all_dropEndWhile hempty, all_dropWhile hempty, htrim, all_isBlankLine_lines]

end ApiPages.Text

namespace ApiPages.Docstring

/-- A blank docstring has no sections. -/
theorem sections_parse_of_isBlankLine {text : List Char} (h : Text.isBlankLine text = true) :
    (parse text).sections = [] := by
  have hempty : ∀ l ∈ (Text.lines text).map Text.trimEnd, (l == []) = true := by
    intro l hl
    obtain ⟨line, hline, rfl⟩ := List.mem_map.mp hl
    rw [← Text.all_isBlankLine_lines, List.all_eq_true] at h
    rw [beq_iff_eq]
    exact Text.trimEnd_eq_nil_iff.mpr (h line hline)
  have hlines : normalLines text = [] := by
    rw [normalLines]
    simp only [List.dropWhile_eq_nil_iff.mpr hempty]
    rfl
  rw [parse, normalize, hlines]
  rfl

end ApiPages.Docstring
