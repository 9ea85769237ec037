import ApiPages.Proofs.DocstringBlocks

/-!
# Reading what was printed

A docstring that is printed and read again is the same docstring. The lines are cut into the runs
that the sections were printed as, with the empty lines between them in runs of free text, where
they are lost.

Results:

* `runs_text`, `runs_titled`: the runs of a printed section and of what follows it.
* `read_runs`: the runs of printed sections are read as the sections.
* `Docstring.parse_print`: reading inverts printing.
-/

namespace ApiPages

/-! ## Runs -/

theorem fst_runsFrom_zero (fenced : Bool) (ls : List (List Char)) :
    (runsFrom fenced 0 ls).1 = [] := by
  cases ls with
  | nil => rfl
  | cons l ls =>
    rw [runsFrom]
    split
    · rfl
    · split
      · rfl
      · split <;> rfl

/-- The lines of an open block are taken as they are. -/
theorem runsFrom_length (fenced : Bool) (block rest : List (List Char)) :
    runsFrom fenced block.length (block ++ rest) = (block, (runsFrom fenced 0 rest).2) := by
  induction block with
  | nil => rw [List.length_nil, List.nil_append, ← fst_runsFrom_zero fenced rest]
  | cons l block ih => rw [List.length_cons, List.cons_append, runsFrom, ih]

/-- A title line opens a run that its block belongs to. -/
theorem runs_titled {line title : List Char} {block rest : List (List Char)}
    (hfence : isFence line = false) (hopens : opens? line (block ++ rest) = some title)
    (hblock : blockOf (block ++ rest) = block) :
    runs (line :: (block ++ rest)) = .titled line title block :: runs rest := by
  rw [runs, runsFrom, hfence, hopens, hblock, runsFrom_length]
  rfl

/-- A line that opens nothing is free text. -/
theorem runs_cons {l : List Char} {ls : List (List Char)} (hfence : isFence l = false)
    (hopens : opens? l ls = none) : runs (l :: ls) = consText l (runs ls) := by
  rw [runs, runsFrom, hfence, hopens]
  rfl

/-- Lines of free text are put in front of what follows if that does not make a section of them. -/
theorem runs_text {ls rest : List (List Char)} (hfence : ∀ l ∈ ls, isFence l = false)
    (htitle : ls.IsChain fun l next => IsTitleLine l → isBlockText next = false)
    (hrest : ∀ l ∈ rest.head?, isBlockText l = false) :
    runs (ls ++ rest) = ls.foldr consText (runs rest) := by
  induction ls with
  | nil => rfl
  | cons l ls ih =>
    have hopens : opens? l (ls ++ rest) = none := by
      have hnext : ∀ next ∈ (ls ++ rest).head?, isBlockText next = true → titleOf? l = none := by
        intro next hmem htext
        cases ls with
        | nil =>
          rw [hrest next hmem] at htext
          cases htext
        | cons k ls =>
          cases hmem
          cases hopen : titleOf? l with
          | none => rfl
          | some title =>
            rw [(List.isChain_cons_cons.mp htitle).1 (isTitleLine_of_titleOf? hopen)] at htext
            cases htext
      unfold opens?
      split
      · next next after heq =>
        split
        · next htext => exact hnext next (by rw [heq]; rfl) htext
        · rfl
      · rfl
    rw [List.cons_append, runs_cons (hfence l List.mem_cons_self) hopens, List.foldr_cons,
      ih (fun k hk => hfence k (List.mem_cons_of_mem l hk)) htitle.tail]

theorem consText_titled (l line title : List Char) (block : List (List Char)) (rs : List Run) :
    consText l (.titled line title block :: rs) = .text [l] :: .titled line title block :: rs :=
  rfl

theorem foldr_consText (ls ks : List (List Char)) (rs : List Run) :
    ls.foldr consText (.text ks :: rs) = .text (ls ++ ks) :: rs := by
  induction ls with
  | nil => rfl
  | cons l ls ih => rw [List.foldr_cons, ih]; rfl

theorem foldr_consText_nil {ls : List (List Char)} (hne : ls ≠ []) :
    ls.foldr consText [] = [.text ls] := by
  obtain ⟨ls, l, rfl⟩ := List.eq_nil_or_concat' ls |>.resolve_left hne
  rw [List.foldr_append]
  exact foldr_consText ls [l] []

/-! ## Free text -/

/-- An empty line in front of free text is lost. -/
theorem textSection?_cons_nil (ls : List (List Char)) :
    textSection? ([] :: ls) = textSection? ls := by
  cases ls with
  | nil => rfl
  | cons l ls => rfl

theorem read_consText_nil (rs : List Run) :
    (consText [] rs).filterMap Run.read = rs.filterMap Run.read := by
  cases rs with
  | nil => rfl
  | cons r rs =>
    cases r with
    | text ls =>
      rw [consText, List.filterMap_cons, List.filterMap_cons, Run.read, textSection?_cons_nil]
      rfl
    | titled line title block => rfl

/-- A text is told from its lines, with or without an empty line at the end. -/
theorem textSection?_linesOf {s : String} (h : IsFreeText s) {blanks : List (List Char)}
    (hblanks : blanks = [] ∨ blanks = [[]]) :
    textSection? (linesOf s ++ blanks) = some (.text s) := by
  have hchars : s.toList ≠ [] := by
    intro hnil
    exact h.ne (String.toList_inj.mp hnil)
  have hbreak : ∀ c : Char, Text.isBlank c = false → (c == '\n') = false := by
    intro c hc
    rw [beq_eq_false_iff_ne]
    rintro rfl
    exact absurd hc (by decide)
  have hjoin : ∃ breaks, (∀ c ∈ breaks, (c == '\n') = true) ∧
      Text.joinLines (linesOf s ++ blanks) = s.toList ++ breaks := by
    rcases hblanks with rfl | rfl
    · exact ⟨[], by simp, by rw [List.append_nil, joinLines_linesOf, List.append_nil]⟩
    · refine ⟨['\n'], by simp, ?_⟩
      have hlines : linesOf s ≠ [] := Text.splitOn_ne_nil '\n' s.toList
      rw [Text.joinLines, Text.joinWith_append hlines (List.cons_ne_nil [] []), ← Text.joinLines,
        joinLines_linesOf]
      simp [Text.joinWith]
  obtain ⟨breaks, hbreaks, hjoin⟩ := hjoin
  have hstart : (s.toList ++ breaks).dropWhile (fun c => c == '\n') = s.toList ++ breaks := by
    obtain ⟨c, r, hcons⟩ := List.exists_cons_of_ne_nil hchars
    have hc := hbreak c (h.trimmed.starts c (by rw [hcons]; rfl))
    rw [hcons, List.cons_append, List.dropWhile_cons, hc]
    rfl
  have hend : Text.dropEndWhile (fun c => c == '\n') (s.toList ++ breaks) = s.toList := by
    rw [Text.dropEndWhile_append_of_all _ hbreaks]
    apply Text.dropEndWhile_of_getLast?
    intro c hc
    exact hbreak c (h.trimmed.ends c hc)
  rw [textSection?]
  simp only [hjoin, hstart, hend, isBlankLine_eq_false hchars h.trimmed.ends, String.ofList_toList]
  rfl

/-! ## The lines of sections -/

/-- The section is free text. -/
def DocSection.isText : DocSection → Bool
  | .text _ => true
  | _ => false

/-- The lines of a section without the blanks at their ends. -/
def DocSection.trimmedLines (s : DocSection) : List (List Char) := s.print.map Text.trimEnd

/-- The lines of sections with an empty line between them. -/
def trimmedLines (sections : List DocSection) : List (List Char) :=
  List.intercalate [[]] (sections.map DocSection.trimmedLines)

/-- What follows a section: nothing, or an empty line and the other sections. -/
def linesBelow : List DocSection → List (List Char)
  | [] => []
  | s :: sections => [] :: trimmedLines (s :: sections)

theorem trimmedLines_cons (s : DocSection) (sections : List DocSection) :
    trimmedLines (s :: sections) = s.trimmedLines ++ linesBelow sections := by
  cases sections with
  | nil => simp [trimmedLines, linesBelow, List.intercalate]
  | cons t ts =>
    rw [trimmedLines, List.map_cons, List.map_cons, List.intercalate_cons_cons, linesBelow,
      List.append_assoc]
    rfl

/-- A section that can be told from its lines is free text or stands under a title. -/
theorem DocSection.Fit.text_or_layout {s : DocSection} (h : s.Fit) :
    (∃ text, s = .text text ∧ IsFreeText text) ∨ ∃ title block, s.Layout title block := by
  cases h with
  | text h => exact Or.inl ⟨_, rfl, h⟩
  | parameters hne hitems => exact Or.inr ⟨_, _, layout_parameters hne hitems⟩
  | typedReturns htype hline hne hdescription =>
    exact Or.inr ⟨_, _, layout_typedReturns htype hne hdescription⟩
  | untypedReturns hne hdescription huntyped =>
    exact Or.inr ⟨_, _, layout_untypedReturns hne hdescription huntyped⟩
  | admonition htitle htrimmed hother hlines hfirst hlast hmargin =>
    exact Or.inr ⟨_, _, layout_admonition htitle htrimmed hother hlines hfirst hlast hmargin⟩

theorem IsFreeText.trimmedLines_eq {text : String} (h : IsFreeText text) :
    (DocSection.text text).trimmedLines = linesOf text := by
  have htrim : ∀ l ∈ linesOf text, Text.trimEnd l = id l := by
    intro l hl
    exact Text.trimEnd_of_getLast? (h.lines l hl)
  rw [DocSection.trimmedLines, DocSection.print, List.map_congr_left htrim, List.map_id]

/-- The first line of a section starts at the margin. -/
theorem DocSection.Fit.exists_cons {s : DocSection} (h : s.Fit) :
    ∃ c l ls, s.trimmedLines = (c :: l) :: ls ∧ Text.isBlank c = false := by
  rcases h.text_or_layout with ⟨text, rfl, htext⟩ | ⟨title, block, hlayout⟩
  · have hhead := head?_headD_linesOf text htext.trimmed.starts
    obtain ⟨c, r, hchars⟩ : ∃ c r, text.toList = c :: r :=
      List.exists_cons_of_ne_nil fun hnil => htext.ne (String.toList_inj.mp hnil)
    rw [hchars, List.head?_cons] at hhead
    obtain ⟨l, hl⟩ := List.head?_eq_some_iff.mp hhead
    refine ⟨c, l, (linesOf text).tail, ?_, htext.trimmed.starts c (by rw [hchars]; rfl)⟩
    rw [htext.trimmedLines_eq, ← hl]
    exact linesOf_eq_cons text
  · obtain ⟨c, r, rfl, hc, -⟩ := hlayout.isTitle
    exact ⟨c, _, _, hlayout.print, Text.isBlank_of_isLetter hc⟩

/-- What follows a section is nothing, or an empty line and a line at the margin. -/
theorem linesBelow_cases {sections : List DocSection} (h : ∀ s ∈ sections, s.Fit) :
    linesBelow sections = [] ∨
      ∃ c l ls, linesBelow sections = [] :: (c :: l) :: ls ∧ Text.isBlank c = false := by
  cases sections with
  | nil => exact Or.inl rfl
  | cons s sections =>
    obtain ⟨c, l, ls, hs, hc⟩ := (h s List.mem_cons_self).exists_cons
    refine Or.inr ⟨c, l, ls ++ linesBelow sections, ?_, hc⟩
    rw [linesBelow, trimmedLines_cons, hs]
    rfl

theorem isBlockText_of_mem_head?_linesBelow (sections : List DocSection) :
    ∀ l ∈ (linesBelow sections).head?, isBlockText l = false := by
  intro l hl
  cases sections with
  | nil => cases hl
  | cons s sections =>
    cases hl
    rfl

/-! ## The runs of sections -/

/-- The block of a section ends where the section does. -/
theorem blockOf_append {block : List (List Char)} {sections : List DocSection}
    (hblock : ∀ l ∈ block, continuesEntry l = true)
    (hlast : ∀ l ∈ block.getLast?, Text.isBlankLine l = false) (h : ∀ s ∈ sections, s.Fit) :
    blockOf (block ++ linesBelow sections) = block := by
  have hbelow : ∀ l ∈ (linesBelow sections).takeWhile continuesEntry,
      Text.isBlankLine l = true := by
    intro l hl
    rcases linesBelow_cases h with hnil | ⟨c, k, ks, hcons, hc⟩
    · rw [hnil] at hl
      cases hl
    · rw [hcons, List.takeWhile_cons, if_pos (by rfl), List.takeWhile_cons,
        continuesEntry_cons hc] at hl
      cases List.mem_singleton.mp hl
      rfl
  rw [blockOf, List.takeWhile_append_of_pos hblock, Text.dropEndWhile_append_of_all _ hbelow,
    Text.dropEndWhile_of_getLast? hlast]

/-- The runs of a section under a title and of what follows it. -/
theorem runs_layout {s : DocSection} {title : List Char} {block : List (List Char)}
    (hlayout : s.Layout title block) {sections : List DocSection} (h : ∀ s ∈ sections, s.Fit) :
    runs (trimmedLines (s :: sections)) =
      .titled (title ++ [':']) title (block.map (Text.shift 4)) :: runs (linesBelow sections) := by
  rw [trimmedLines_cons, DocSection.trimmedLines, hlayout.print, List.cons_append]
  apply runs_titled
  · exact isFence_title hlayout.isTitle [':']
  · obtain ⟨l, hl, hblank⟩ := hlayout.first
    obtain ⟨below, hblock⟩ : ∃ below, block = l :: below := List.head?_eq_some_iff.mp hl
    have hne : l ≠ [] := by
      rintro rfl
      cases hblank
    have htext : isBlockText (Text.shift 4 l) = true := by
      rw [isBlockText, Text.isBlankLine_shift, hblank, Text.shift_of_ne_nil hne]
      rfl
    rw [hblock, List.map_cons, List.cons_append, opens?, if_pos htext,
      titleOf?_append hlayout.isTitle hlayout.trimmed]
  · refine blockOf_append (fun l hl => ?_) (fun l hl => ?_) h
    · obtain ⟨k, -, rfl⟩ := List.mem_map.mp hl
      exact continuesEntry_shift (by omega) k
    · rw [List.getLast?_map] at hl
      obtain ⟨k, hk, rfl⟩ := Option.map_eq_some_iff.mp hl
      rw [Text.isBlankLine_shift]
      exact hlayout.last k hk

theorem runs_linesBelow_cons (s : DocSection) (sections : List DocSection) :
    runs (linesBelow (s :: sections)) = consText [] (runs (trimmedLines (s :: sections))) := by
  rw [linesBelow]
  apply runs_cons
  · rfl
  · unfold opens?
    split
    · split <;> rfl
    · rfl

theorem read_runs_linesBelow (sections : List DocSection) :
    (runs (linesBelow sections)).filterMap Run.read =
      (runs (trimmedLines sections)).filterMap Run.read := by
  cases sections with
  | nil => rfl
  | cons s sections => rw [runs_linesBelow_cons, read_consText_nil]

/-- The runs of printed sections are read as the sections. -/
theorem read_runs {sections : List DocSection} (h : ∀ s ∈ sections, s.Fit)
    (htexts : sections.IsChain fun s t => ¬(s.isText = true ∧ t.isText = true)) :
    (runs (trimmedLines sections)).filterMap Run.read = sections.map .ok := by
  induction sections with
  | nil => rfl
  | cons s sections ih =>
    have hsections : ∀ t ∈ sections, t.Fit := fun t ht => h t (List.mem_cons_of_mem s ht)
    have hrest := ih hsections htexts.tail
    rcases (h s List.mem_cons_self).text_or_layout with ⟨text, rfl, hs⟩ | ⟨title, block, hlayout⟩
    · rw [trimmedLines_cons, hs.trimmedLines_eq,
        runs_text hs.noFence hs.noTitle (isBlockText_of_mem_head?_linesBelow sections)]
      cases sections with
      | nil =>
        have hread := textSection?_linesOf hs (Or.inl rfl)
        rw [List.append_nil] at hread
        have hlines : linesOf text ≠ [] := Text.splitOn_ne_nil '\n' text.toList
        show ((linesOf text).foldr consText []).filterMap Run.read = _
        rw [foldr_consText_nil hlines, List.filterMap_cons, Run.read, hread]
        rfl
      | cons t ts =>
        have hread := textSection?_linesOf hs (Or.inr rfl)
        have hts : ∀ u ∈ ts, u.Fit := fun u hu => hsections u (List.mem_cons_of_mem t hu)
        rcases (hsections t List.mem_cons_self).text_or_layout with
          ⟨next, rfl, -⟩ | ⟨title, block, hlayout⟩
        · exact absurd ⟨rfl, rfl⟩ (List.isChain_cons_cons.mp htexts).1
        · -- the title ends the text and the empty line behind it
          rw [runs_layout hlayout hts] at hrest
          rw [runs_linesBelow_cons, runs_layout hlayout hts, consText_titled, foldr_consText,
            List.filterMap_cons, Run.read, hread, Option.map_some, hrest]
          rfl
    · have hread : Run.read (.titled (title ++ [':']) title (block.map (Text.shift 4))) =
          some (.ok s) := by
        rw [Run.read, Text.dedent_map_shift hlayout.margin, hlayout.read]
      rw [runs_layout hlayout hsections, List.filterMap_cons, hread, read_runs_linesBelow, hrest]
      rfl

/-! ## Printed lines -/

theorem newline_not_mem_indent {n : Nat} {l : List Char} (h : '\n' ∉ l) :
    '\n' ∉ Text.indent n l := by
  rw [Text.indent, List.mem_append, not_or]
  refine ⟨fun hmem => ?_, h⟩
  exact absurd (List.eq_of_mem_replicate hmem) (by decide)

theorem newline_not_mem_labelled {label : List Char} (h : '\n' ∉ label) (n : Nat) (s : String) :
    ∀ l ∈ labelled label n s, '\n' ∉ l := by
  have hlines : ∀ l ∈ (linesOf s).headD [] :: (linesOf s).tail, '\n' ∉ l := by
    intro l hl
    rw [← linesOf_eq_cons] at hl
    exact newline_not_mem_of_mem_linesOf hl
  intro l hl
  rw [labelled, List.mem_cons] at hl
  rcases hl with rfl | hl
  · apply newline_not_mem_indent
    rw [List.mem_append, not_or]
    exact ⟨h, hlines _ List.mem_cons_self⟩
  · obtain ⟨k, hk, rfl⟩ := List.mem_map.mp hl
    exact newline_not_mem_indent (hlines k (List.mem_cons_of_mem _ hk))

theorem newline_not_mem_name {name : List Char} (h : IsParameterName name) : '\n' ∉ name := by
  obtain ⟨n, c, rest, rfl, -, hc, hrest⟩ := h
  rw [List.mem_append, List.mem_cons, not_or, not_or]
  refine ⟨fun hmem => ?_, fun hmem => ?_, fun hmem => ?_⟩
  · exact absurd (List.eq_of_mem_replicate hmem) (by decide)
  · rw [← hmem] at hc
    exact absurd hc (by decide)
  · exact absurd (hrest _ hmem) (by decide)

theorem newline_not_mem_title {title : List Char} (h : IsTitle title) : '\n' ∉ title := by
  obtain ⟨c, rest, rfl, hc, hrest⟩ := h
  rw [List.mem_cons, not_or]
  refine ⟨fun hmem => ?_, fun hmem => ?_⟩
  · rw [← hmem] at hc
    exact absurd hc (by decide)
  · exact absurd (hrest _ hmem) (by decide)

theorem DocParameter.Fit.newline_not_mem_label {i : DocParameter} (h : i.Fit) : '\n' ∉ i.label := by
  have hname := newline_not_mem_name h.name
  unfold DocParameter.label DocParameter.header
  cases ht : i.typeText with
  | none => simp [hname]
  | some t => simp [hname, (h.typeText t ht).2.2]

/-- No printed line has a line feed in it. -/
theorem DocSection.Fit.newline_not_mem {s : DocSection} (h : s.Fit) : ∀ l ∈ s.print, '\n' ∉ l := by
  cases h with
  | text => exact fun l hl => newline_not_mem_of_mem_linesOf hl
  | parameters hne hitems =>
    intro l hl
    rcases List.mem_cons.mp hl with rfl | hl
    · decide
    · obtain ⟨i, hi, hl⟩ := List.mem_flatMap.mp hl
      exact newline_not_mem_labelled (hitems i hi).newline_not_mem_label 8 _ l hl
  | typedReturns htype hline hne hdescription =>
    intro l hl
    rcases List.mem_cons.mp hl with rfl | hl
    · decide
    · exact newline_not_mem_labelled (by simp [returnLabel, hline]) 4 _ l hl
  | untypedReturns hne hdescription huntyped =>
    intro l hl
    rcases List.mem_cons.mp hl with rfl | hl
    · decide
    · exact newline_not_mem_labelled (by simp [returnLabel]) 4 _ l hl
  | admonition htitle htrimmed hother hlines hfirst hlast hmargin =>
    intro l hl
    rcases List.mem_cons.mp hl with rfl | hl
    · simp [newline_not_mem_title htitle]
    · obtain ⟨k, hk, rfl⟩ := List.mem_map.mp hl
      split
      · exact List.not_mem_nil
      · exact newline_not_mem_indent (newline_not_mem_of_mem_linesOf hk)

/-- The last line of a section is not empty. -/
theorem DocSection.Fit.ne_nil_of_mem_getLast? {s : DocSection} (h : s.Fit) :
    ∀ l ∈ s.trimmedLines.getLast?, l ≠ [] := by
  rcases h.text_or_layout with ⟨text, rfl, htext⟩ | ⟨title, block, hlayout⟩
  · rw [htext.trimmedLines_eq]
    exact ne_nil_of_mem_getLast?_linesOf htext.ne htext.trimmed.ends
  · intro l hl
    rw [DocSection.trimmedLines, hlayout.print, List.getLast?_cons, List.getLast?_map] at hl
    cases hblock : block.getLast? with
    | none =>
      rw [hblock] at hl
      cases hl
      exact List.append_ne_nil_of_right_ne_nil title (List.cons_ne_nil ':' [])
    | some k =>
      have hk := hlayout.last k hblock
      rw [hblock] at hl
      cases hl
      intro hnil
      rw [← Text.isBlankLine_shift 4, show Text.shift 4 k = [] from hnil] at hk
      cases hk

theorem ne_nil_of_mem_getLast?_trimmedLines {sections : List DocSection}
    (h : ∀ s ∈ sections, s.Fit) : ∀ l ∈ (trimmedLines sections).getLast?, l ≠ [] := by
  induction sections with
  | nil =>
    intro l hl
    cases hl
  | cons s sections ih =>
    have hs := (h s List.mem_cons_self).ne_nil_of_mem_getLast?
    cases sections with
    | nil =>
      rw [trimmedLines_cons, linesBelow, List.append_nil]
      exact hs
    | cons t ts =>
      have ht := ih fun u hu => h u (List.mem_cons_of_mem s hu)
      obtain ⟨c, k, ks, hks, -⟩ := (h t (by simp)).exists_cons
      rw [trimmedLines_cons t ts, hks] at ht
      rw [trimmedLines_cons, linesBelow, trimmedLines_cons t ts, hks, List.cons_append,
        List.getLast?_append_cons, List.getLast?_cons_cons]
      exact ht

/-- What holds of the lines of all parts and of an empty line holds of the lines between. -/
theorem forall_mem_intercalate {P : List Char → Prop} (hnil : P [])
    {parts : List (List (List Char))} (h : ∀ ls ∈ parts, ∀ l ∈ ls, P l) :
    ∀ l ∈ List.intercalate [[]] parts, P l := by
  induction parts with
  | nil =>
    intro l hl
    cases hl
  | cons ls parts ih =>
    have hls := h ls List.mem_cons_self
    have hparts := ih fun ks hks => h ks (List.mem_cons_of_mem ls hks)
    cases parts with
    | nil =>
      rw [List.intercalate_singleton]
      exact hls
    | cons ks parts =>
      rw [List.intercalate_cons_cons]
      intro l hl
      rcases List.mem_append.mp hl with hl | hl
      · rcases List.mem_append.mp hl with hl | hl
        · exact hls l hl
        · cases List.mem_singleton.mp hl
          exact hnil
      · exact hparts l hl

theorem map_trimEnd_intercalate (sections : List DocSection) :
    (List.intercalate [[]] (sections.map DocSection.print)).map Text.trimEnd =
      trimmedLines sections := by
  induction sections with
  | nil => rfl
  | cons s sections ih =>
    rw [trimmedLines_cons]
    cases sections with
    | nil =>
      rw [linesBelow, List.append_nil, List.map_singleton, List.intercalate_singleton]
      rfl
    | cons t ts =>
      rw [List.map_cons, List.map_cons, List.intercalate_cons_cons, List.map_append,
        List.map_append, ← List.map_cons, ih, linesBelow, List.append_assoc]
      rfl

/-- The normal lines of a text are its lines if these start at the margin, and the last one is not
empty. -/
theorem normalLines_eq {text : List Char} {c : Char} {l : List Char} {ls : List (List Char)}
    (htext : (Text.lines text).map Text.trimEnd = (c :: l) :: ls) (hc : Text.isBlank c = false)
    (hlast : ∀ k ∈ ((c :: l) :: ls).getLast?, k ≠ []) : normalLines text = (c :: l) :: ls := by
  have hmargin : Text.Margin ((c :: l) :: ls) := ⟨c, l, List.mem_cons_self, hc⟩
  have hend : Text.dropEndWhile (fun k => k == []) ((c :: l) :: ls) = (c :: l) :: ls := by
    apply Text.dropEndWhile_of_getLast?
    intro k hk
    exact beq_eq_false_iff_ne.mpr (hlast k hk)
  rw [normalLines, htext, List.dropWhile_cons, if_neg (by simp)]
  simp only [hend, Text.dedent_of_margin hmargin]

/-- The lines of the normal form of a printed docstring. -/
theorem lines_normalize_print {sections : List DocSection} (h : ∀ s ∈ sections, s.Fit) :
    Text.lines (normalize (Docstring.print sections).toList) = trimmedLines sections := by
  have hfree : ∀ l ∈ List.intercalate [[]] (sections.map DocSection.print), '\n' ∉ l := by
    refine forall_mem_intercalate List.not_mem_nil fun ls hls => ?_
    obtain ⟨s, hs, rfl⟩ := List.mem_map.mp hls
    exact (h s hs).newline_not_mem
  have htrim := map_trimEnd_intercalate sections
  have hlast := ne_nil_of_mem_getLast?_trimmedLines h
  have hprinted : ∀ l ∈ (List.intercalate [[]] (sections.map DocSection.print)).getLast?,
      l ≠ [] := by
    rintro l hl rfl
    refine hlast [] ?_ rfl
    rw [← htrim, List.getLast?_map, hl]
    rfl
  have hnormal : normalLines (Docstring.print sections).toList = trimmedLines sections := by
    have hlines := Text.map_trimEnd_lines_joinLines hfree hprinted
    rw [htrim] at hlines
    rw [Docstring.print, String.toList_ofList]
    cases sections with
    | nil => rfl
    | cons s sections =>
      obtain ⟨c, l, ls, hs, hc⟩ := (h s List.mem_cons_self).exists_cons
      rw [trimmedLines_cons, hs, List.cons_append] at hlines hlast ⊢
      exact normalLines_eq hlines hc hlast
  rw [normalize, hnormal]
  refine Text.lines_joinLines (fun l hl => ?_) hlast (fun l hl => ?_)
  · rw [← htrim] at hl
    obtain ⟨k, hk, rfl⟩ := List.mem_map.mp hl
    exact mt Text.mem_of_mem_trimEnd (hfree k hk)
  · rw [← htrim] at hl
    obtain ⟨k, -, rfl⟩ := List.mem_map.mp hl
    exact Text.getLast?_trimEnd k

/-- Reading inverts printing: of a docstring whose sections can be told from their lines, and in
which no two texts are neighbours, the text is read as the same sections without a fault. -/
theorem Docstring.parse_print {sections : List DocSection} (hfit : ∀ s ∈ sections, s.Fit)
    (htexts : sections.IsChain fun s t => ¬(s.isText = true ∧ t.isText = true)) :
    Docstring.parse (Docstring.print sections).toList = ⟨sections, []⟩ := by
  have hsections : (sections.map .ok).filterMap section? = sections := by
    rw [List.filterMap_map]
    exact List.filterMap_some
  have hfaults : (sections.map .ok).filterMap fault? = [] := by
    rw [List.filterMap_map, List.filterMap_eq_nil_iff]
    intro s hs
    rfl
  rw [Docstring.parse, lines_normalize_print hfit, Docstring.ofRuns, read_runs hfit htexts,
    hsections, hfaults]

namespace Docstring

/-- Sections of all kinds. -/
def fetchSections : List DocSection :=
  [.text "Fetch a page.\n\nOutline:\nsee below.",
    .parameters [⟨"url", some "str", "Where to look.\nMay be relative."⟩, ⟨"**options", none, ""⟩],
    .returns (some "dict[str, int]") "Counts by name.",
    .returns none "Nothing else.",
    .admonition "Note" (tagOf "Note") "Slow:\n\n    on Mondays.",
    .text "Done."]

theorem fetchSections_fit : ∀ s ∈ fetchSections, s.Fit := by
  simp only [fetchSections, List.forall_mem_cons, List.not_mem_nil, false_implies, implies_true,
    and_true]
  refine ⟨?_, ?_, ?_, ?_, ?_, ?_⟩
  · have htitle : (linesOf "Fetch a page.\n\nOutline:\nsee below.").IsChain
        fun _ next => isBlockText next = false := by decide
    exact .text ⟨by decide, by decide, by decide, by decide, htitle.imp fun _ _ h _ => h⟩
  · refine .parameters (by simp) ?_
    simp only [List.forall_mem_cons, List.not_mem_nil, false_implies, implies_true, and_true]
    refine ⟨⟨⟨0, 'u', ['r', 'l'], by decide, by decide, by decide, ?_⟩, ?_, by decide, by decide,
      Or.inr ?_⟩, ⟨⟨2, 'o', ['p', 't', 'i', 'o', 'n', 's'], by decide, by decide, by decide, ?_⟩, ?_,
      by decide, by decide, Or.inl ?_⟩⟩
    · exact List.all_eq_true.mp (by decide)
    · intro t ht
      cases ht
      decide
    · exact ⟨'M', "ay be relative.".toList, by decide⟩
    · exact List.all_eq_true.mp (by decide)
    · intro t ht
      cases ht
    · decide
  · exact .typedReturns ⟨"dict".toList, "[str, int]".toList, by decide, by decide,
      List.all_eq_true.mp (by decide), Or.inr ⟨"str, int".toList, by decide⟩⟩ (by decide)
      (by decide) ⟨by decide, by decide, Or.inl (by decide)⟩
  · refine .untypedReturns (by decide) ⟨by decide, by decide, Or.inl (by decide)⟩ ?_
    intro t blanks rest _ _ hline
    have hcolon : ':' ∈ (linesOf "Nothing else.").headD [] := by
      rw [hline]
      simp
    exact absurd hcolon (by decide)
  · have htitle : IsTitle "Note".toList :=
      ⟨'N', ['o', 't', 'e'], by decide, by decide, List.all_eq_true.mp (by decide)⟩
    exact .admonition htitle (by decide) (by decide) (by decide) (by decide) (by decide)
      ⟨'S', "low:".toList, by decide⟩
  · exact .text ⟨by decide, by decide, by decide, by decide, .singleton _⟩

theorem fetchSections_read_back :
    (∀ s ∈ fetchSections, s.Fit) ∧
      parse (print fetchSections).toList = ⟨fetchSections, []⟩ :=
  ⟨fetchSections_fit, parse_print fetchSections_fit (by decide)⟩

end Docstring

end ApiPages
