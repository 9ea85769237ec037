import ApiPages.Proofs.BlankTexts
import ApiPages.Proofs.DocstringRoundTrip

/-!
# The cut of a docstring

A docstring is cut into runs of lines. Every line is in one run, in its place: a section takes its
title line and its block, without blank lines at the end, and what lies between sections is free
text. Fence lines of free text open and close fenced code, where no section opens. A run of free
text leads to a section unless it is blank, and a section to itself or to its fault, in the order of
the runs. So only a blank docstring says nothing.

Results:

* `IsCut`, `isCut_runsFrom`: how lines are cut into runs.
* `IsCut.flatMap_lines`, `IsCut.isChain`, `IsCut.titled_spec`: what a cut is like.
* `Run.read_eq`: what a run says.
* `Docstring.parse_keeps_lines`: a docstring is read run by run.
-/

namespace ApiPages

/-! ## Cuts -/

/-- Fenced code is open behind the lines, with fenced code open or not in front of them. -/
def fencedAfter (fenced : Bool) (ls : List (List Char)) : Bool :=
  ls.foldl (fun state l => state ^^ isFence l) fenced

/-- The run is free text. -/
def Run.isText : Run → Bool
  | text _ => true
  | titled _ _ _ => false

/-- How lines are cut into runs, with fenced code open or not in front of them. No two texts are
neighbours. In a text every line that could open a section is a fence line or in fenced code.
Sections lie outside fenced code; what is fenced inside their blocks is of no account. -/
inductive IsCut : (fenced : Bool) → List (List Char) → List Run → Prop
  | nil {fenced : Bool} : IsCut fenced [] []
  | text {fenced : Bool} {ks rest : List (List Char)} {rs : List Run} (hne : ks ≠ [])
      (hopens : ∀ before l after, ks = before ++ l :: after → isFence l = false →
        fencedAfter fenced before = false → opens? l (after ++ rest) = none)
      (hnext : ∀ r ∈ rs.head?, r.isText = false) (hrest : IsCut (fencedAfter fenced ks) rest rs) :
      IsCut fenced (ks ++ rest) (.text ks :: rs)
  | titled {line title : List Char} {block rest : List (List Char)} {rs : List Run}
      (hfence : isFence line = false) (hopens : opens? line (block ++ rest) = some title)
      (hblock : blockOf (block ++ rest) = block) (hrest : IsCut false rest rs) :
      IsCut false (line :: (block ++ rest)) (.titled line title block :: rs)

/-- The block of a section is in front of what follows the title line. -/
theorem exists_blockOf_append (ls : List (List Char)) : ∃ rest, ls = blockOf ls ++ rest := by
  have htake := List.takeWhile_prefix (l := ls) continuesEntry
  have hblock : blockOf ls <+: ls.takeWhile continuesEntry := Text.dropEndWhile_prefix _ _
  obtain ⟨rest, hrest⟩ := hblock.trans htake
  exact ⟨rest, hrest.symm⟩

/-- A section is opened by a title line with block text under it. -/
theorem opens?_eq_some_iff {l title : List Char} {after : List (List Char)} :
    opens? l after = some title ↔
      titleOf? l = some title ∧ ∃ next rest, after = next :: rest ∧ isBlockText next = true := by
  cases after with
  | nil => simp [opens?]
  | cons next rest =>
    rw [opens?]
    split
    · next htext => simp [htext]
    · next htext => simp [htext]

/-- The text right under a title belongs to the block. -/
theorem mem_blockOf {next : List Char} (h : isBlockText next = true) (rest : List (List Char)) :
    next ∈ blockOf (next :: rest) := by
  obtain ⟨hblank, hindent⟩ := Bool.and_eq_true_iff.mp h
  rw [Bool.not_eq_true'] at hblank
  have hcontinues : continuesEntry next = true := by
    rw [continuesEntry, hindent, Bool.or_true]
  rw [blockOf, List.takeWhile_cons, hcontinues, if_pos rfl, ← List.singleton_append,
    Text.dropEndWhile_append]
  split
  · rw [Text.dropEndWhile_of_getLast? (by simpa using hblank)]
    exact List.mem_singleton_self next
  · exact List.mem_append_left _ (List.mem_singleton_self next)

/-- A title line starts at the margin. -/
theorem isIndented_of_titleOf? {l title : List Char} (h : titleOf? l = some title) :
    Text.isIndented l = false := by
  obtain ⟨_, blanks, rfl, ⟨c, rest, rfl, hc, -⟩, -⟩ := isTitleLine_of_titleOf? h
  exact Text.isBlank_of_isLetter hc

namespace IsCut

variable {fenced : Bool} {ls : List (List Char)} {rs : List Run}

/-- A line that opens no section goes to the text below it. -/
theorem consText {l : List Char} (h : IsCut (fenced ^^ isFence l) ls rs)
    (hopens : isFence l = false → fenced = false → opens? l ls = none) :
    IsCut fenced (l :: ls) (consText l rs) := by
  -- a text of one line, in front of whatever is no text
  have hsingle : (∀ r ∈ rs.head?, r.isText = false) → IsCut fenced (l :: ls) (.text [l] :: rs) := by
    intro hnext
    show IsCut fenced ([l] ++ ls) _
    refine .text (List.cons_ne_nil l []) ?_ hnext h
    intro before k after heq hfence hfenced
    obtain ⟨rfl, rfl, rfl⟩ : before = [] ∧ k = l ∧ after = [] := by
      cases before with
      | nil =>
        cases heq
        exact ⟨rfl, rfl, rfl⟩
      | cons b before => simp at heq
    exact hopens hfence hfenced
  generalize hstate : (fenced ^^ isFence l) = state at h
  cases h with
  | nil => exact hsingle (by simp)
  | @text _ ks rest rs hne hquiet hnext hrest =>
    subst hstate
    show IsCut fenced ((l :: ks) ++ rest) _
    refine .text (List.cons_ne_nil l ks) ?_ hnext hrest
    intro before k after heq hfence hfenced
    cases before with
    | nil =>
      cases heq
      exact hopens hfence hfenced
    | cons b before =>
      cases heq
      exact hquiet before k after rfl hfence hfenced
  | titled hfence htitle hblock hrest =>
    refine hsingle fun r hr => ?_
    cases hr
    rfl

/-- No line is lost, repeated or moved. -/
theorem flatMap_lines (h : IsCut fenced ls rs) : rs.flatMap Run.lines = ls := by
  induction h with
  | nil => rfl
  | text _ _ _ _ ih => rw [List.flatMap_cons, ih, Run.lines]
  | titled _ _ _ _ ih =>
    rw [List.flatMap_cons, ih, Run.lines, List.cons_append]

/-- No two texts are neighbours. -/
theorem isChain (h : IsCut fenced ls rs) :
    rs.IsChain fun r next => ¬(r.isText = true ∧ next.isText = true) := by
  induction h with
  | nil => exact .nil
  | text _ _ hnext _ ih =>
    refine List.isChain_cons.mpr ⟨?_, ih⟩
    intro next hmem hboth
    rw [hnext next hmem] at hboth
    cases hboth.2
  | titled _ _ _ _ ih =>
    refine List.isChain_cons.mpr ⟨?_, ih⟩
    intro next _ hboth
    cases hboth.1

/-- A section opens with a title at the margin and has a line of text in its block. -/
theorem titled_spec (h : IsCut fenced ls rs) {line title : List Char} {block : List (List Char)}
    (hmem : .titled line title block ∈ rs) :
    titleOf? line = some title ∧ Text.isIndented line = false ∧
      ∃ l ∈ block, isBlockText l = true := by
  induction h with
  | nil => cases hmem
  | text _ _ _ _ ih =>
    rcases List.mem_cons.mp hmem with heq | hmem
    · cases heq
    · exact ih hmem
  | titled _ hopens hblock _ ih =>
    rcases List.mem_cons.mp hmem with heq | hmem
    · cases heq
      obtain ⟨htitle, next, rest, hlines, hnext⟩ := opens?_eq_some_iff.mp hopens
      refine ⟨htitle, isIndented_of_titleOf? htitle, next, ?_, hnext⟩
      rw [← hblock, hlines]
      exact mem_blockOf hnext rest
    · exact ih hmem

end IsCut

/-- The runs of lines are their cut. -/
theorem isCut_runsFrom (fenced : Bool) (ls : List (List Char)) :
    IsCut fenced ls (runsFrom fenced 0 ls).2 := by
  -- a section takes several lines at once, so the induction is on their number
  induction hlen : ls.length using Nat.strong_induction_on generalizing fenced ls with
  | _ n ih =>
  cases ls with
  | nil => exact .nil
  | cons l ls =>
    have hbelow : ∀ (state : Bool) (rest : List (List Char)), rest.length ≤ ls.length →
        IsCut state rest (runsFrom state 0 rest).2 := by
      intro state rest hle
      rw [List.length_cons] at hlen
      exact ih rest.length (by omega) state rest rfl
    rw [runsFrom]
    by_cases hfence : isFence l = true
    · rw [if_pos hfence]
      refine IsCut.consText ?_ fun hplain => absurd (hplain.symm.trans hfence) Bool.false_ne_true
      rw [hfence, Bool.xor_true]
      exact hbelow (!fenced) ls (Nat.le_refl _)
    · rw [if_neg hfence]
      rw [Bool.not_eq_true] at hfence
      have htext : (fenced = false → opens? l ls = none) →
          IsCut fenced (l :: ls) (consText l (runsFrom fenced 0 ls).2) := by
        intro hopens
        refine IsCut.consText ?_ fun _ => hopens
        rw [hfence, Bool.xor_false]
        exact hbelow fenced ls (Nat.le_refl _)
      cases fenced with
      | true => exact htext fun h => absurd h Bool.noConfusion
      | false =>
        rw [if_neg Bool.false_ne_true]
        cases hopens : opens? l ls with
        | none => exact htext fun _ => hopens
        | some title =>
          obtain ⟨rest, hrest⟩ := exists_blockOf_append ls
          have hcut := hbelow false rest (by
            have := congrArg List.length hrest
            rw [List.length_append] at this
            omega)
          generalize hblock : blockOf ls = block at hrest ⊢
          subst hrest
          rw [runsFrom_length]
          exact .titled hfence hopens hblock hcut

/-! ## What the runs say -/

/-- The section of a run: of free text that is not blank, the lines without line feeds around them;
of a section, what its block is read as. -/
def Run.section? : Run → Option DocSection
  | text ls =>
    let isBreak : Char → Bool := fun c => c == '\n'
    if ls.all Text.isBlankLine then none
    else some (.text (String.ofList
      (Text.dropEndWhile isBreak ((Text.joinLines ls).dropWhile isBreak))))
  | titled _ title block =>
    (DocSection.read (String.ofList title) (Text.dedent block)).toOption

/-- The fault of a run: free text has none. -/
def Run.fault? : Run → Option DocFault
  | text _ => none
  | titled _ title block =>
    match DocSection.read (String.ofList title) (Text.dedent block) with
    | .ok _ => none
    | .error f => some f

/-- What a run is read as. -/
theorem Run.read_eq (r : Run) :
    r.read.bind Docstring.section? = r.section? ∧ r.read.bind Docstring.fault? = r.fault? := by
  cases r with
  | text ls =>
    have hbreak : ∀ c : Char, (c == '\n') = true → Text.isBlank c = true := by
      intro c hc
      rw [beq_iff_eq] at hc
      rw [hc]
      decide
    have hblank : Text.isBlankLine (Text.dropEndWhile (fun c => c == '\n')
        ((Text.joinLines ls).dropWhile fun c => c == '\n')) = ls.all Text.isBlankLine := by
      rw [Text.isBlankLine, Text.all_dropEndWhile hbreak, Text.all_dropWhile hbreak,
        ← Text.isBlankLine, Text.isBlankLine_joinLines]
    simp only [read, textSection?, hblank, section?, fault?]
    split <;> exact ⟨rfl, rfl⟩
  | titled line title block =>
    rw [read, section?, fault?]
    cases DocSection.read (String.ofList title) (Text.dedent block) <;> exact ⟨rfl, rfl⟩

/-- The sections and the faults of runs, in order. -/
theorem Docstring.ofRuns_eq (rs : List Run) :
    ofRuns rs = ⟨rs.filterMap Run.section?, rs.filterMap Run.fault?⟩ := by
  have hsection : (fun r : Run => r.read.bind section?) = Run.section? :=
    funext fun r => r.read_eq.1
  have hfault : (fun r : Run => r.read.bind fault?) = Run.fault? := funext fun r => r.read_eq.2
  simp only [ofRuns, List.filterMap_filterMap, hsection, hfault]

/-- A run with a line that is not blank says something. -/
theorem Run.section?_or_fault? {r : Run} {l : List Char} (hl : l ∈ r.lines)
    (hblank : Text.isBlankLine l = false) : r.section? ≠ none ∨ r.fault? ≠ none := by
  cases r with
  | text ls =>
    left
    have hall : ls.all Text.isBlankLine = false := List.all_eq_false.mpr ⟨l, hl, by simp [hblank]⟩
    simp [section?, hall]
  | titled line title block =>
    rw [section?, fault?]
    cases DocSection.read (String.ofList title) (Text.dedent block) with
    | ok s => exact Or.inl (Option.some_ne_none s)
    | error f => exact Or.inr (Option.some_ne_none f)

/-- A docstring is read run by run. The lines of its normal form are cut into runs, and none is
lost, repeated or moved; the sections are those of the runs, the faults are those of the runs, both
in order. So a docstring with a character that is not blank leads to a section or to a fault. -/
theorem Docstring.parse_keeps_lines (text : List Char) :
    (∃ rs, IsCut false (Text.lines (normalize text)) rs ∧
      rs.flatMap Run.lines = Text.lines (normalize text) ∧
      rs.IsChain (fun r next => ¬(r.isText = true ∧ next.isText = true)) ∧
      (∀ line title block, .titled line title block ∈ rs →
        titleOf? line = some title ∧ Text.isIndented line = false ∧
          ∃ l ∈ block, isBlockText l = true) ∧
      (parse text).sections = rs.filterMap Run.section? ∧
      (parse text).faults = rs.filterMap Run.fault?) ∧
    ((∃ c ∈ text, Text.isBlank c = false) →
      (parse text).sections ≠ [] ∨ (parse text).faults ≠ []) := by
  have hcut := isCut_runsFrom false (Text.lines (normalize text))
  have hparse : parse text = _ := ofRuns_eq (runs (Text.lines (normalize text)))
  rw [hparse]
  refine ⟨⟨_, hcut, hcut.flatMap_lines, hcut.isChain, fun _ _ _ => hcut.titled_spec, rfl, rfl⟩, ?_⟩
  rintro ⟨c, hc, hblank⟩
  have htext : Text.isBlankLine text = false := List.all_eq_false.mpr ⟨c, hc, by simp [hblank]⟩
  -- a line of the normal form is not blank, so neither is the run that it is in
  rw [← Text.isBlankLine_normalize, ← Text.all_isBlankLine_lines, ← hcut.flatMap_lines,
    List.all_eq_false] at htext
  obtain ⟨l, hl, hline⟩ := htext
  obtain ⟨r, hr, hl⟩ := List.mem_flatMap.mp hl
  rw [Bool.not_eq_true] at hline
  refine (r.section?_or_fault? hl hline).imp (fun hsome hnil => ?_) (fun hsome hnil => ?_)
  · exact hsome (List.filterMap_eq_nil_iff.mp hnil r hr)
  · exact hsome (List.filterMap_eq_nil_iff.mp hnil r hr)

namespace Docstring

/-- A docstring with a title in fenced code, and with a section that lists no parameters. -/
def fencedTitle : String :=
  "Reads a page.\n\n~~~\nArgs:\n    in code\n~~~\n\nArgs:\n    no entry\n\nDone."

/-- The fenced title is free text, and the section is reported. -/
theorem fencedTitle_keeps_lines :
    (parse fencedTitle.toList).sections =
        [.text "Reads a page.\n\n~~~\nArgs:\n    in code\n~~~", .text "Done."] ∧
      (parse fencedTitle.toList).faults = [.malformedEntry "Args" "no entry"] ∧
      ((parse fencedTitle.toList).sections ≠ [] ∨ (parse fencedTitle.toList).faults ≠ []) :=
  ⟨by decide +kernel, by decide +kernel,
    (parse_keeps_lines fencedTitle.toList).2 ⟨'R', by decide, by decide⟩⟩

end Docstring

end ApiPages
