import ApiPages.Proofs.DocstringRuns
import ApiPages.Proofs.NormalForm

/-!
# The lines of parameter sections

The block of a parameter section is cut into entries: each line at the margin of the block starts
one, and the lines below it that lie deeper continue it. A section is dropped for the first line at
the margin that starts no parameter. In a section that is kept, such lines start the parameters, and
all lines below the first of them are found in the descriptions. What lies deeper above the first
entry is left out without a fault: the section is the same as without these lines.

Results:

* `Text.exists_mem_splitOn_trim`: trimming a text keeps its lines that are not blank.
* `trim_mem_joinDescription`: the lines of a description.
* `flatMap_entriesOf`, `readParameters_cases`: the entries of a block, and what they are read as.
* `Docstring.parse_parameters`: what becomes of the lines of parameter sections.
-/

namespace ApiPages

/-! ## Lines of trimmed texts -/

namespace Text

theorem isBlankLine_of_mem_splitOn {sep : Char} {s p : List Char} (hs : isBlankLine s = true)
    (hp : p ∈ splitOn sep s) : isBlankLine p = true := by
  rw [isBlankLine, List.all_eq_true] at hs ⊢
  intro c hc
  exact hs c (mem_of_mem_splitOn hp hc)

/-- Blanks around a text take nothing from its lines but blanks. -/
theorem exists_mem_splitOn_of_blanks {sep : Char} {before s after l : List Char}
    (hbefore : isBlankLine before = true) (hafter : isBlankLine after = true)
    (hl : l ∈ splitOn sep (before ++ (s ++ after))) (hblank : isBlankLine l = false) :
    ∃ k ∈ splitOn sep s, trim k = trim l := by
  have hfront : ∃ k ∈ splitOn sep (s ++ after), trim k = trim l := by
    obtain ⟨init, x, y, ys, hb, hs, hbs⟩ := exists_splitOn_append sep before (s ++ after)
    rw [hs]
    rw [hbs] at hl
    have hpieces : ∀ p ∈ init ++ [x], isBlankLine p = true := by
      intro p hp
      rw [← hb] at hp
      exact isBlankLine_of_mem_splitOn hbefore hp
    rcases List.mem_append.mp hl with hl | hl
    · rw [hpieces l (List.mem_append_left _ hl)] at hblank
      cases hblank
    · rcases List.mem_cons.mp hl with rfl | hl
      · refine ⟨y, List.mem_cons_self, ?_⟩
        rw [trim, trim, trimStart_append_blanks (hpieces x (by simp))]
      · exact ⟨l, List.mem_cons_of_mem y hl, rfl⟩
  obtain ⟨k, hk, htrim⟩ := hfront
  have hkblank : isBlankLine k = false := by
    rw [Bool.eq_false_iff, ne_eq, ← trim_eq_nil_iff, htrim, trim_eq_nil_iff, hblank]
    decide
  obtain ⟨init, x, y, ys, hs, ha, hsa⟩ := exists_splitOn_append sep s after
  rw [hs]
  rw [hsa] at hk
  have hpieces : ∀ p ∈ y :: ys, isBlankLine p = true := by
    intro p hp
    rw [← ha] at hp
    exact isBlankLine_of_mem_splitOn hafter hp
  rcases List.mem_append.mp hk with hk | hk
  · exact ⟨k, List.mem_append_left _ hk, htrim⟩
  · rcases List.mem_cons.mp hk with rfl | hk
    · refine ⟨x, by simp, ?_⟩
      have hends : trimEnd (x ++ y) = trimEnd x :=
        dropEndWhile_append_of_all x (List.all_eq_true.mp (hpieces y List.mem_cons_self))
      rw [← htrim, ← trim_trimEnd (x ++ y), hends, trim_trimEnd]
    · rw [hpieces k (List.mem_cons_of_mem y hk)] at hkblank
      cases hkblank

/-- Trimming a text keeps its lines that are not blank, but for blanks around them. -/
theorem exists_mem_splitOn_trim {sep : Char} {s l : List Char} (hl : l ∈ splitOn sep s)
    (hblank : isBlankLine l = false) : ∃ k ∈ splitOn sep (trim s), trim k = trim l := by
  obtain ⟨before, hbefore, hs⟩ := exists_blanks_trimStart s
  obtain ⟨after, hafter, hstart⟩ := exists_blanks_trimEnd (trimStart s)
  rw [hs, hstart] at hl
  exact exists_mem_splitOn_of_blanks hbefore hafter hl hblank

end Text

/-- A line that is not blank is found in the description that it goes into. -/
theorem trim_mem_joinDescription {l : List Char} {continuation : List (List Char)}
    (hfree : ∀ k ∈ continuation, '\n' ∉ k) (hl : l ∈ continuation)
    (hblank : Text.isBlankLine l = false) (first : List Char) :
    Text.trim l ∈ (linesOf (joinDescription first continuation)).map Text.trim := by
  have hstrip : ∀ k ∈ Text.dedent continuation, '\n' ∉ k := by
    intro k hk hnewline
    obtain ⟨j, hj, rfl⟩ := List.mem_map.mp hk
    exact hfree j hj (Text.mem_of_mem_stripIndent hnewline)
  have hmem : Text.stripIndent (Text.commonIndent continuation) l ∈ Text.dedent continuation :=
    List.mem_map_of_mem hl
  have hpiece : Text.stripIndent (Text.commonIndent continuation) l ∈
      Text.splitOn '\n' (Text.joinLines (first :: Text.dedent continuation)) := by
    have hne : Text.dedent continuation ≠ [] := List.ne_nil_of_mem hmem
    have hjoin : Text.joinLines (first :: Text.dedent continuation) =
        first ++ '\n' :: Text.joinLines (Text.dedent continuation) := by
      obtain ⟨k, ks, hks⟩ := List.exists_cons_of_ne_nil hne
      rw [hks, Text.joinLines, Text.joinWith, List.append_assoc]
      rfl
    rw [hjoin, Text.splitOn_append, Text.joinLines, Text.splitOn_joinWith hne hstrip]
    exact List.mem_append_right _ hmem
  obtain ⟨k, hk, htrim⟩ := Text.exists_mem_splitOn_trim hpiece
    ((Text.isBlankLine_stripIndent _ l).trans hblank)
  rw [Text.trim_stripIndent] at htrim
  rw [linesOf, joinDescription, String.toList_ofList]
  exact List.mem_map.mpr ⟨k, hk, htrim⟩

/-! ## Entries -/

/-- No line is lost when lines are cut into entries. -/
theorem flatMap_entriesOf (ls : List (List Char)) :
    (entriesOf ls).1 ++ (entriesOf ls).2.flatMap (fun e => e.1 :: e.2) = ls := by
  induction ls with
  | nil => rfl
  | cons l ls ih =>
    rw [entriesOf]
    split
    · rw [List.cons_append, ih]
    · rw [List.flatMap_cons, List.nil_append, List.cons_append, ih]

theorem continuesEntry_of_mem_entriesOf {ls : List (List Char)} {e : List Char × List (List Char)}
    (he : e ∈ (entriesOf ls).2) : continuesEntry e.1 = false := by
  induction ls with
  | nil => cases he
  | cons l ls ih =>
    rw [entriesOf] at he
    split at he
    · exact ih he
    · next hl =>
      rcases List.mem_cons.mp he with rfl | he
      · rwa [Bool.not_eq_true] at hl
      · exact ih he

/-- The entries are those of the lines from the first entry on. -/
theorem entriesOf_dropWhile (ls : List (List Char)) :
    entriesOf (ls.dropWhile continuesEntry) = ([], (entriesOf ls).2) := by
  have htake : ∀ l ∈ ls.takeWhile continuesEntry, continuesEntry l = true :=
    fun l hl => List.mem_takeWhile_imp hl
  have hls : entriesOf (ls.takeWhile continuesEntry ++ ls.dropWhile continuesEntry) = _ :=
    entriesOf_append htake
  rw [List.takeWhile_append_dropWhile] at hls
  rw [hls]
  cases hdrop : ls.dropWhile continuesEntry with
  | nil => rfl
  | cons l rest =>
    have hl : continuesEntry l = false := by
      have hhead := List.head?_dropWhile_not continuesEntry ls
      rw [hdrop] at hhead
      simpa using hhead
    rw [entriesOf, hl]
    rfl

/-- Lines above the first entry do not change what a block is read as. -/
theorem readParameters_dropWhile (title : String) (block : List (List Char)) :
    readParameters title (block.dropWhile continuesEntry) = readParameters title block := by
  rw [readParameters, entriesOf_dropWhile, readParameters]

/-- A block is read as the parameters that its entries start, or the first entry that starts none is
its fault. -/
theorem readParameters_cases (title : String) (block : List (List Char)) :
    (∃ items, readParameters title block = .ok items ∧ ∀ e ∈ (entriesOf block).2,
      ∃ item, ParameterItem.match? e.1 = some item ∧ item.complete e.2 ∈ items) ∨
    ∃ e ∈ (entriesOf block).2, ParameterItem.match? e.1 = none ∧
      readParameters title block = .error (.malformedEntry title (String.ofList e.1)) := by
  rw [readParameters]
  induction (entriesOf block).2 with
  | nil => exact Or.inl ⟨[], rfl, by simp⟩
  | cons e es ih =>
    rw [List.mapM_cons]
    cases hmatch : ParameterItem.match? e.1 with
    | none => exact Or.inr ⟨e, List.mem_cons_self, hmatch, rfl⟩
    | some item =>
      rcases ih with ⟨items, hitems, hread⟩ | ⟨e', he', hnone, herror⟩
      · left
        refine ⟨item.complete e.2 :: items, ?_, ?_⟩
        · rw [hitems]
          rfl
        · rw [List.forall_mem_cons]
          refine ⟨⟨item, hmatch, List.mem_cons_self⟩, fun e' he' => ?_⟩
          obtain ⟨item', hitem', hmem⟩ := hread e' he'
          exact ⟨item', hitem', List.mem_cons_of_mem _ hmem⟩
      · right
        refine ⟨e', List.mem_cons_of_mem e he', hnone, ?_⟩
        rw [herror]
        rfl

/-! ## Blocks -/

/-- The line lies deeper than the margin of its block, or is blank. -/
def liesDeeper (block : List (List Char)) (l : List Char) : Bool :=
  continuesEntry (Text.stripIndent (Text.commonIndent block) l)

/-- The parameter tells a line: it starts with the line, or the line is in its description. -/
inductive DocParameter.Tells (i : DocParameter) (l : List Char) : Prop
  | starts {item : ParameterItem} {below : List (List Char)}
      (hitem : ParameterItem.match? (Text.trimStart l) = some item) (hi : item.complete below = i)
  | describes (h : Text.trim l ∈ (linesOf i.description).map Text.trim)

section Block

variable {block : List (List Char)}

theorem dropWhile_dedent (block : List (List Char)) :
    (Text.dedent block).dropWhile continuesEntry =
      (block.dropWhile (liesDeeper block)).map (Text.stripIndent (Text.commonIndent block)) := by
  rw [Text.dedent, List.dropWhile_map]
  rfl

/-- A line at the margin is moved all the way to the left. -/
theorem stripIndent_eq_trimStart {l : List Char} (h : liesDeeper block l = false) :
    Text.stripIndent (Text.commonIndent block) l = Text.trimStart l := by
  have hhead : ∀ c ∈ (Text.stripIndent (Text.commonIndent block) l).head?,
      Text.isBlank c = false := by
    intro c hc
    rw [liesDeeper, continuesEntry, Bool.or_eq_false_iff] at h
    obtain ⟨r, hr⟩ := List.head?_eq_some_iff.mp hc
    rw [hr] at h
    exact h.2
  obtain ⟨blanks, hblanks, hl⟩ := Text.exists_blanks_stripIndent (Text.commonIndent block) l
  have hstart := congrArg Text.trimStart hl
  rw [Text.trimStart_append_blanks hblanks, Text.trimStart_of_head? hhead] at hstart
  exact hstart.symm

/-- A block keeps its margin without the lines above its first entry. -/
theorem dedent_dropWhile {l : List Char} (hl : l ∈ block) (hblank : Text.isBlankLine l = false) :
    Text.dedent (block.dropWhile (liesDeeper block)) =
      (Text.dedent block).dropWhile continuesEntry := by
  obtain ⟨⟨k, hk, hkblank, hkindent⟩, hleast⟩ := Text.commonIndent_spec hl hblank
  have hmargin : liesDeeper block k = false := by
    obtain ⟨c, r, htrim⟩ : ∃ c r, Text.trimStart k = c :: r := by
      apply List.exists_cons_of_ne_nil
      intro hnil
      rw [← Text.isBlankLine_trimStart, hnil] at hkblank
      cases hkblank
    rw [liesDeeper, ← hkindent, Text.stripIndent_indentation, htrim]
    exact continuesEntry_cons (Text.head?_trimStart k c (by rw [htrim]; rfl)) r
  have hbelow : k ∈ block.dropWhile (liesDeeper block) := by
    rw [← List.takeWhile_append_dropWhile (p := liesDeeper block) (l := block)] at hk
    refine (List.mem_append.mp hk).resolve_left fun habove => ?_
    rw [List.mem_takeWhile_imp habove] at hmargin
    cases hmargin
  have hcommon : Text.commonIndent (block.dropWhile (liesDeeper block)) =
      Text.commonIndent block := by
    obtain ⟨⟨j, hj, hjblank, hjindent⟩, hleast'⟩ := Text.commonIndent_spec hbelow hkblank
    have hle := hleast' k hbelow hkblank
    have hge := hleast j ((List.dropWhile_suffix _).subset hj) hjblank
    omega
  rw [dropWhile_dedent, Text.dedent, hcommon]

/-- The lines from the first entry on are told by the parameters. -/
theorem exists_tells {title : String} {items : List DocParameter}
    (hfree : ∀ l ∈ block, '\n' ∉ l) (hread : readParameters title (Text.dedent block) = .ok items)
    {l : List Char} (hl : l ∈ block.dropWhile (liesDeeper block))
    (hblank : Text.isBlankLine l = false) : ∃ i ∈ items, i.Tells l := by
  have hlines := flatMap_entriesOf ((Text.dedent block).dropWhile continuesEntry)
  rw [entriesOf_dropWhile, List.nil_append, dropWhile_dedent] at hlines
  obtain ⟨e, he, hmem⟩ := List.mem_flatMap.mp (hlines ▸ List.mem_map_of_mem hl)
  obtain ⟨item, hitem, hcomplete⟩ : ∃ item, ParameterItem.match? e.1 = some item ∧
      item.complete e.2 ∈ items := by
    rcases readParameters_cases title (Text.dedent block) with ⟨items', hok, hread'⟩ | ⟨_, _, _, h⟩
    · rw [hread] at hok
      cases hok
      exact hread' e he
    · rw [hread] at h
      cases h
  refine ⟨item.complete e.2, hcomplete, ?_⟩
  rcases List.mem_cons.mp hmem with hstart | hbelow
  · have hmargin : liesDeeper block l = false := by
      rw [liesDeeper, hstart]
      exact continuesEntry_of_mem_entriesOf he
    rw [← hstart, stripIndent_eq_trimStart hmargin] at hitem
    exact .starts hitem rfl
  · have hfreeBelow : ∀ k ∈ e.2, '\n' ∉ k := by
      intro k hk hnewline
      have hk' : k ∈ (entriesOf (Text.dedent block)).2.flatMap fun e => e.1 :: e.2 :=
        List.mem_flatMap.mpr ⟨e, he, List.mem_cons_of_mem _ hk⟩
      rw [hlines] at hk'
      obtain ⟨j, hj, rfl⟩ := List.mem_map.mp hk'
      exact hfree j ((List.dropWhile_suffix _).subset hj) (Text.mem_of_mem_stripIndent hnewline)
    have htold := trim_mem_joinDescription hfreeBelow hbelow
      ((Text.isBlankLine_stripIndent _ l).trans hblank) (Text.trim item.description)
    rw [Text.trim_stripIndent] at htold
    exact .describes htold

end Block

/-! ## Sections -/

/-- The title is one of parameter sections. -/
def IsParameterTitle (title : List Char) : Prop :=
  String.ofList (title.map Char.toLower) ∈ DocSection.parameterTitles

instance (title : List Char) : Decidable (IsParameterTitle title) :=
  inferInstanceAs (Decidable (_ ∈ _))

theorem IsParameterTitle.read_eq {title : List Char} (h : IsParameterTitle title)
    (block : List (List Char)) :
    DocSection.read (String.ofList title) block =
      (readParameters (String.ofList title) block).map .parameters := by
  rw [DocSection.read, String.toList_ofList]
  exact if_pos h

theorem isParameterTitle_of_read {title : List Char} {block : List (List Char)}
    {items : List DocParameter}
    (h : DocSection.read (String.ofList title) block = .ok (.parameters items)) :
    IsParameterTitle title := by
  by_contra htitle
  rw [IsParameterTitle] at htitle
  rw [DocSection.read, String.toList_ofList] at h
  simp only [if_neg htitle, readReturns] at h
  split at h
  · split at h
    · cases h
    · cases h
  · cases h

namespace Run

variable (line : List Char) {title : List Char} {block : List (List Char)}

/-- A section of parameters is that of a block under its title. -/
theorem exists_titled_of_section? {r : Run} {items : List DocParameter}
    (h : r.section? = some (.parameters items)) :
    ∃ line title block, r = .titled line title block ∧ IsParameterTitle title := by
  cases r with
  | text ls =>
    rw [section?] at h
    split at h
    · cases h
    · cases h
  | titled line title block =>
    refine ⟨line, title, block, rfl, ?_⟩
    rw [section?] at h
    cases hread : DocSection.read (String.ofList title) (Text.dedent block) with
    | error f =>
      rw [hread] at h
      cases h
    | ok s =>
      rw [hread] at h
      cases h
      exact isParameterTitle_of_read hread

/-- A block that is kept is told by its parameters from the first line at the margin on, and is read
as the same parameters without the lines above. -/
theorem section?_of_readParameters (htitle : IsParameterTitle title)
    {items : List DocParameter}
    (hread : readParameters (String.ofList title) (Text.dedent block) = .ok items)
    {k : List Char} (hk : k ∈ block) (hblank : Text.isBlankLine k = false) :
    (titled line title block).section? = some (.parameters items) ∧
      (titled line title (block.dropWhile (liesDeeper block))).section? =
        some (.parameters items) := by
  constructor
  · rw [section?, htitle.read_eq, hread]
    rfl
  · rw [section?, htitle.read_eq, dedent_dropWhile hk hblank, readParameters_dropWhile, hread]
    rfl

/-- A block that is not kept has a line at the margin that starts no parameter, and this is its
fault. -/
theorem fault?_of_entry (htitle : IsParameterTitle title) {e : List Char × List (List Char)}
    (he : e ∈ (entriesOf (Text.dedent block)).2) (hnone : ParameterItem.match? e.1 = none)
    (hread : readParameters (String.ofList title) (Text.dedent block) =
      .error (.malformedEntry (String.ofList title) (String.ofList e.1))) :
    ∃ l ∈ block, liesDeeper block l = false ∧ ParameterItem.match? (Text.trimStart l) = none ∧
      (titled line title block).fault? =
        some (.malformedEntry (String.ofList title) (String.ofList (Text.trimStart l))) := by
  have hmem : e.1 ∈ Text.dedent block := by
    rw [← flatMap_entriesOf (Text.dedent block)]
    exact List.mem_append_right _ (List.mem_flatMap.mpr ⟨e, he, List.mem_cons_self⟩)
  obtain ⟨l, hl, hline⟩ := List.mem_map.mp hmem
  have hmargin : liesDeeper block l = false := by
    rw [liesDeeper, hline]
    exact continuesEntry_of_mem_entriesOf he
  rw [stripIndent_eq_trimStart hmargin] at hline
  rw [← hline] at hnone hread
  refine ⟨l, hl, hmargin, hnone, ?_⟩
  rw [fault?, htitle.read_eq, hread]
  rfl

end Run

/-- What becomes of the lines of parameter sections. Every such section is that of a block under its
title. In a block that is kept, all lines that are not blank start a parameter or are in a
description, from the first line at the margin on; lines above that one lie deeper, and the section
is the same without them. So nothing is lost if the block starts at its margin. A block that is not
kept has a line at the margin that starts no parameter, and this line is reported. -/
theorem Docstring.parse_parameters (text : List Char) :
    (∀ items, .parameters items ∈ (parse text).sections →
      ∃ line title block, .titled line title block ∈ runs (Text.lines (normalize text)) ∧
        IsParameterTitle title ∧
        (Run.titled line title block).section? = some (.parameters items)) ∧
    ∀ line title block, .titled line title block ∈ runs (Text.lines (normalize text)) →
      IsParameterTitle title →
      (∃ items above below, (Run.titled line title block).section? = some (.parameters items) ∧
        .parameters items ∈ (parse text).sections ∧
        block = above ++ below ∧
        (∀ l ∈ above, liesDeeper block l = true) ∧
        (∀ l ∈ below.head?, liesDeeper block l = false) ∧
        (∀ l ∈ below, Text.isBlankLine l = false → ∃ i ∈ items, i.Tells l) ∧
        (Run.titled line title below).section? = some (.parameters items) ∧
        ((∀ l ∈ block.head?, liesDeeper block l = false) → above = [])) ∨
      ∃ l ∈ block, liesDeeper block l = false ∧
        ParameterItem.match? (Text.trimStart l) = none ∧
        .malformedEntry (String.ofList title) (String.ofList (Text.trimStart l)) ∈
          (parse text).faults := by
  have hcut : IsCut false (Text.lines (normalize text)) (runs (Text.lines (normalize text))) :=
    isCut_runsFrom false _
  have hparse : parse text = _ := ofRuns_eq (runs (Text.lines (normalize text)))
  rw [hparse]
  constructor
  · intro items hitems
    obtain ⟨r, hr, hsection⟩ := List.mem_filterMap.mp hitems
    obtain ⟨line, title, block, rfl, htitle⟩ := Run.exists_titled_of_section? hsection
    exact ⟨line, title, block, hr, htitle, hsection⟩
  · intro line title block hrun htitle
    have hfree : ∀ l ∈ block, '\n' ∉ l := by
      intro l hl
      have hmem : l ∈ (runs (Text.lines (normalize text))).flatMap Run.lines :=
        List.mem_flatMap.mpr ⟨_, hrun, List.mem_cons_of_mem line hl⟩
      rw [hcut.flatMap_lines, lines_normalize] at hmem
      exact (isNormal_normalLines text).free l hmem
    obtain ⟨-, -, k, hk, htext⟩ := hcut.titled_spec hrun
    have hblank : Text.isBlankLine k = false := by
      rw [isBlockText, Bool.and_eq_true, Bool.not_eq_true'] at htext
      exact htext.1
    rcases readParameters_cases (String.ofList title) (Text.dedent block) with
      ⟨items, hread, -⟩ | ⟨e, he, hnone, herror⟩
    · obtain ⟨hsection, hbelow⟩ :=
        Run.section?_of_readParameters line htitle hread hk hblank
      refine Or.inl ⟨items, block.takeWhile (liesDeeper block), block.dropWhile (liesDeeper block),
        hsection, List.mem_filterMap.mpr ⟨_, hrun, hsection⟩,
        List.takeWhile_append_dropWhile.symm, fun l hl => List.mem_takeWhile_imp hl, ?_,
        fun l hl hl' => exists_tells hfree hread hl hl', hbelow, ?_⟩
      · intro l hl
        have hhead := List.head?_dropWhile_not (liesDeeper block) block
        rw [hl] at hhead
        exact hhead
      · intro hfirst
        cases block with
        | nil => rfl
        | cons l rest => rw [List.takeWhile_cons, hfirst l rfl, if_neg Bool.false_ne_true]
    · obtain ⟨l, hl, hmargin, hmatch, hfault⟩ :=
        Run.fault?_of_entry line htitle he hnone herror
      exact Or.inr ⟨l, hl, hmargin, hmatch, List.mem_filterMap.mpr ⟨_, hrun, hfault⟩⟩

namespace Docstring

/-- A docstring whose parameters are described on lines of different depth. -/
def unevenParameters : String :=
  "Reads.\n\nArgs:\n    x (int): First.\n      More.\n\n        Deep.\n    y: Second."

/-- The block of the parameters. -/
def unevenBlock : List (List Char) :=
  ["    x (int): First.".toList, "      More.".toList, [], "        Deep.".toList,
    "    y: Second.".toList]

/-- The parameters of the block. -/
def unevenItems : List DocParameter :=
  [⟨"x", some "int", "First.\nMore.\n\n  Deep."⟩, ⟨"y", none, "Second."⟩]

/-- The block starts at its margin, so all its lines are told. -/
theorem unevenParameters_told :
    parse unevenParameters.toList = ⟨[.text "Reads.", .parameters unevenItems], []⟩ ∧
      .titled "Args:".toList "Args".toList unevenBlock ∈
        runs (Text.lines (normalize unevenParameters.toList)) ∧
      ∀ l ∈ unevenBlock, Text.isBlankLine l = false → ∃ i ∈ unevenItems, i.Tells l := by
  have hrun : .titled "Args:".toList "Args".toList unevenBlock ∈
      runs (Text.lines (normalize unevenParameters.toList)) := by
    decide +kernel
  have hitems : (Run.titled "Args:".toList "Args".toList unevenBlock).section? =
      some (.parameters unevenItems) := by
    decide +kernel
  have hentries : ∀ l ∈ unevenBlock, liesDeeper unevenBlock l = false →
      ParameterItem.match? (Text.trimStart l) ≠ none := by
    decide +kernel
  refine ⟨by decide +kernel, hrun, ?_⟩
  rcases (parse_parameters unevenParameters.toList).2 _ _ _ hrun (by decide) with
    ⟨items, above, below, hsection, -, hblock, -, -, htold, -, habove⟩ | ⟨l, hl, hmargin, hnone, -⟩
  · rw [hitems] at hsection
    cases hsection
    rw [hblock, habove (by decide +kernel)]
    exact htold
  · exact absurd hnone (hentries l hl hmargin)

/-- A docstring with a line above its first parameter. -/
def lineAboveParameters : String := "Args:\n        See below.\n    x: The value."

/-- The line above the parameter is in no description, and it is not reported. So a section of
parameters that is kept may lose a line. -/
theorem lineAboveParameters_lost :
    parse lineAboveParameters.toList = ⟨[.parameters [⟨"x", none, "The value."⟩]], []⟩ ∧
      ¬∀ text line title block items,
        .titled line title block ∈ runs (Text.lines (normalize text)) →
        (Run.titled line title block).section? = some (.parameters items) →
        ∀ l ∈ block, Text.isBlankLine l = false → ∃ i ∈ items, i.Tells l := by
  refine ⟨by decide +kernel, fun h => ?_⟩
  obtain ⟨i, hi, htells⟩ := h lineAboveParameters.toList "Args:".toList "Args".toList
    ["        See below.".toList, "    x: The value.".toList] [⟨"x", none, "The value."⟩]
    (by decide +kernel) (by decide +kernel) "        See below.".toList (by decide) (by decide)
  cases List.mem_singleton.mp hi
  cases htells with
  | starts hitem _ =>
    have hnone : ParameterItem.match? (Text.trimStart "        See below.".toList) = none := by
      decide +kernel
    rw [hnone] at hitem
    cases hitem
  | describes hmem => exact absurd hmem (by decide +kernel)

end Docstring

end ApiPages
