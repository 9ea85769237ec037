import ApiPages.Proofs.DocstringFormat

/-!
# Blocks of docstrings

The block under a title is read as the section that it was printed from.

Results:

* `ParameterItem.match?_header`, `readParameters_parameterBlock`: parameters.
* `returnType?_label`, `exists_of_returnType?`: the type of a returned value, and what has none.
* `titleOf?_append`, `isTitleLine_of_titleOf?`: title lines.
* `DocSection.layout_parameters`, `DocSection.layout_typedReturns`,
  `DocSection.layout_untypedReturns`, `DocSection.layout_admonition`: the lines of a section under a
  title, and how they are read.
-/

namespace ApiPages

/-! ## Parameters -/

theorem trimStart_colon (s : List Char) : Text.trimStart (':' :: s) = ':' :: s := by
  rw [Text.trimStart, List.dropWhile_cons, if_neg (by decide)]

theorem afterColon?_cons (s : List Char) : afterColon? (':' :: s) = some s := by
  rw [afterColon?, trimStart_colon]
  rfl

theorem splitFirst_append {sep : Char} {a : List Char} (h : sep ∉ a) (b : List Char) :
    Text.splitFirst sep (a ++ sep :: b) = some (a, b) := by
  induction a with
  | nil => simp [Text.splitFirst]
  | cons c a ih =>
    obtain ⟨hc, ha⟩ := not_or.mp (mt List.mem_cons.mpr h)
    rw [List.cons_append, Text.splitFirst, if_neg (Ne.symm hc), ih ha]
    rfl

namespace ParameterItem

theorem stars_replicate {n : Nat} (hn : n ≤ 2) {c : Char} (hc : c ≠ '*') (s : List Char) :
    stars (List.replicate n '*' ++ c :: s) = (List.replicate n '*', c :: s) := by
  have hnone : stars (c :: s) = ([], c :: s) := by
    unfold stars
    split
    · next heq =>
      cases heq
      exact absurd rfl hc
    · next heq =>
      cases heq
      exact absurd rfl hc
    · rfl
  have hone : stars ('*' :: c :: s) = (['*'], c :: s) := by
    unfold stars
    split
    · next heq =>
      cases heq
      exact absurd rfl hc
    · next heq =>
      cases heq
      rfl
    · next h => exact absurd rfl (h _)
  obtain rfl | rfl | rfl : n = 0 ∨ n = 1 ∨ n = 2 := by omega
  · exact hnone
  · exact hone
  · rfl

/-- The name at the front of a line ends where its characters end. -/
theorem name?_append {name r : List Char} (h : IsParameterName name)
    (hr : ∀ c ∈ r.head?, Text.isIdentifierRest c = false) : name? (name ++ r) = some (name, r) := by
  obtain ⟨n, c, rest, rfl, hn, hc, hrest⟩ := h
  have hstar : c ≠ '*' := by
    rintro rfl
    exact absurd hc (by decide)
  have hend : r.takeWhile Text.isIdentifierRest = [] ∧ r.dropWhile Text.isIdentifierRest = r := by
    cases r with
    | nil => exact ⟨rfl, rfl⟩
    | cons d r =>
      have hd : Text.isIdentifierRest d = false := hr d rfl
      rw [List.takeWhile_cons, List.dropWhile_cons, hd]
      exact ⟨rfl, rfl⟩
  rw [List.append_assoc, List.cons_append, name?, stars_replicate hn hstar]
  simp only [hc, if_true, List.takeWhile_append_of_pos hrest, List.dropWhile_append_of_pos hrest,
    hend.1, hend.2, List.append_nil]

/-- The first line of a parameter is taken apart again. -/
theorem match?_header {i : DocParameter} (h : i.Fit) (d : List Char) :
    match? (i.header ++ ':' :: d) = some ⟨i.name.toList, i.typeText.map String.toList, d⟩ := by
  unfold DocParameter.header
  cases ht : i.typeText with
  | none =>
    rw [match?, name?_append h.name (by simp; decide)]
    simp only [trimStart_colon]
    show (afterColon? (':' :: d)).map (fun e => ParameterItem.mk i.name.toList none e) = _
    rw [afterColon?_cons]
    rfl
  | some t =>
    obtain ⟨-, hparen, -⟩ := h.typeText t ht
    have hline : (i.name.toList ++ ' ' :: '(' :: t.toList ++ [')']) ++ ':' :: d =
        i.name.toList ++ ' ' :: '(' :: (t.toList ++ ')' :: ':' :: d) := by simp
    have hstart : ∀ r : List Char, Text.trimStart (' ' :: '(' :: r) = '(' :: r := by
      intro r
      rw [Text.trimStart, List.dropWhile_cons, if_pos (by decide), List.dropWhile_cons,
        if_neg (by decide)]
    simp only
    rw [hline, match?, name?_append h.name (by simp; decide)]
    simp only [hstart, splitFirst_append hparen, afterColon?_cons, Option.map_some]

/-- The parameter of a first line and the lines below it. -/
theorem complete_eq {i : DocParameter} (h : i.Fit) :
    (ParameterItem.mk i.name.toList (i.typeText.map String.toList)
      (Text.trimEnd (' ' :: (linesOf i.description).headD []))).complete
        ((linesOf i.description).tail.map (Text.shift 4)) = i := by
  have htype : (i.typeText.map String.toList).map (fun a => String.ofList (Text.trim a)) =
      i.typeText := by
    cases ht : i.typeText with
    | none => rfl
    | some t =>
      have htrim := (h.typeText t ht).1.trim_eq
      simp only [Option.map_some, htrim, String.ofList_toList]
  rw [complete]
  simp only [htype, trim_trimEnd_cons h.description.trimmed_headD,
    h.description.joinDescription_eq 4, String.ofList_toList]

end ParameterItem

/-- The block of a parameter section at the margin. -/
def parameterBlock (items : List DocParameter) : List (List Char) :=
  items.flatMap fun i => entryBlock i.label 4 i.description

/-- Lines that continue an entry belong to the one above them. -/
theorem entriesOf_append {ls rest : List (List Char)} (h : ∀ l ∈ ls, continuesEntry l = true) :
    entriesOf (ls ++ rest) = (ls ++ (entriesOf rest).1, (entriesOf rest).2) := by
  induction ls with
  | nil => rfl
  | cons l ls ih =>
    rw [List.cons_append, entriesOf, ih fun k hk => h k (List.mem_cons_of_mem l hk),
      if_pos (h l List.mem_cons_self)]
    rfl

theorem continuesEntry_shift {n : Nat} (hn : 0 < n) (l : List Char) :
    continuesEntry (Text.shift n l) = true := by
  by_cases hl : l = []
  · rw [hl]
    rfl
  · obtain ⟨k, rfl⟩ : ∃ k, n = k + 1 := ⟨n - 1, by omega⟩
    rw [Text.shift_of_ne_nil hl, continuesEntry]
    have hindent : Text.isIndented (Text.indent (k + 1) l) = true := by
      show Text.isBlank ' ' = true
      decide
    rw [hindent, Bool.or_true]

theorem continuesEntry_cons {c : Char} (hc : Text.isBlank c = false) (l : List Char) :
    continuesEntry (c :: l) = false := by
  rw [continuesEntry, Text.isBlankLine_cons, Text.isIndented, hc]
  rfl

/-- The name of a parameter starts with something else than a blank. -/
theorem DocParameter.Fit.exists_header {i : DocParameter} (h : i.Fit) :
    ∃ c r, i.header = c :: r ∧ Text.isBlank c = false := by
  have hname : ∃ c r, i.name.toList = c :: r ∧ Text.isBlank c = false := by
    obtain ⟨n, c, rest, hname, -, hc, -⟩ := h.name
    cases n with
    | zero => exact ⟨c, rest, hname, Text.isBlank_of_isIdentifierStart hc⟩
    | succ n => exact ⟨'*', _, hname, by decide⟩
  obtain ⟨c, r, hname, hc⟩ := hname
  unfold DocParameter.header
  rw [hname]
  cases i.typeText with
  | none => exact ⟨c, r, rfl, hc⟩
  | some t => exact ⟨c, _, rfl, hc⟩

/-- The first line of a parameter behind the trimming of lines. -/
theorem DocParameter.trimEnd_line (i : DocParameter) (first : List Char) :
    Text.trimEnd (i.label ++ first) = i.header ++ ':' :: Text.trimEnd (' ' :: first) := by
  have hline : i.label ++ first = i.header ++ ':' :: ' ' :: first := by simp [DocParameter.label]
  rw [hline, trimEnd_label]

theorem DocParameter.Fit.continuesEntry_line {i : DocParameter} (h : i.Fit) (first : List Char) :
    continuesEntry (Text.trimEnd (i.label ++ first)) = false := by
  obtain ⟨c, r, hheader, hc⟩ := h.exists_header
  rw [i.trimEnd_line, hheader, List.cons_append]
  exact continuesEntry_cons hc _

theorem entriesOf_parameterBlock {items : List DocParameter} (h : ∀ i ∈ items, i.Fit) :
    entriesOf (parameterBlock items) = ([], items.map fun i =>
      (Text.trimEnd (i.label ++ (linesOf i.description).headD []),
        (linesOf i.description).tail.map (Text.shift 4))) := by
  induction items with
  | nil => rfl
  | cons i items ih =>
    have hrest := ih fun j hj => h j (List.mem_cons_of_mem i hj)
    have hfirst := (h i List.mem_cons_self).continuesEntry_line ((linesOf i.description).headD [])
    have hcontinues : ∀ l ∈ (linesOf i.description).tail.map (Text.shift 4),
        continuesEntry l = true := by
      intro l hl
      obtain ⟨k, -, rfl⟩ := List.mem_map.mp hl
      exact continuesEntry_shift (by omega) k
    unfold parameterBlock at hrest ⊢
    rw [List.flatMap_cons, entryBlock, List.cons_append, entriesOf, entriesOf_append hcontinues,
      hfirst, hrest, List.map_cons]
    simp

theorem readParameters_parameterBlock (title : String) {items : List DocParameter}
    (h : ∀ i ∈ items, i.Fit) : readParameters title (parameterBlock items) = .ok items := by
  rw [readParameters, entriesOf_parameterBlock h]
  simp only
  induction items with
  | nil => rfl
  | cons i items ih =>
    have hi := h i List.mem_cons_self
    have hrest := ih fun j hj => h j (List.mem_cons_of_mem i hj)
    rw [List.map_cons, List.mapM_cons, i.trimEnd_line, ParameterItem.match?_header hi, hrest]
    simp only [ParameterItem.complete_eq hi]
    rfl

/-! ## Returned values -/

/-- The type in front of a description is taken off again. -/
theorem returnType?_label {t : List Char} (h : IsReturnType t) (d : List Char) :
    returnType? (t ++ ':' :: d) = some (t, d) := by
  obtain ⟨name, bracket, rfl, hne, hname, hbracket⟩ := h
  have hstop : ∀ {c : Char} {r : List Char}, isTypeChar c = false →
      (name ++ c :: r).takeWhile isTypeChar = name ∧
        (name ++ c :: r).dropWhile isTypeChar = c :: r := by
    intro c r hc
    rw [List.takeWhile_append_of_pos hname, List.dropWhile_append_of_pos hname,
      List.takeWhile_cons, List.dropWhile_cons, hc]
    exact ⟨List.append_nil name, rfl⟩
  rcases hbracket with rfl | ⟨inner, rfl, hinner⟩
  · obtain ⟨htake, hdrop⟩ := hstop (r := d) (show isTypeChar ':' = false by decide +kernel)
    rw [List.append_nil, returnType?]
    simp only [htake, hdrop, if_neg hne]
    show (afterColon? (':' :: d)).map (fun e => (name, e)) = _
    rw [afterColon?_cons]
    rfl
  · obtain ⟨htake, hdrop⟩ := hstop (r := inner ++ ']' :: ':' :: d)
      (show isTypeChar '[' = false by decide +kernel)
    have hline : name ++ ('[' :: inner ++ [']']) ++ ':' :: d =
        name ++ '[' :: (inner ++ ']' :: ':' :: d) := by simp
    rw [hline, returnType?]
    simp only [htake, hdrop, if_neg hne, splitFirst_append hinner, afterColon?_cons,
      Option.map_some]
    rw [List.append_assoc]

theorem exists_of_afterColon? {s d : List Char} (h : afterColon? s = some d) :
    ∃ blanks, Text.isBlankLine blanks = true ∧ s = blanks ++ ':' :: d := by
  unfold afterColon? at h
  split at h
  · next r hr =>
    cases h
    refine ⟨s.takeWhile Text.isBlank, ?_, ?_⟩
    · rw [Text.isBlankLine, List.all_eq_true]
      intro c hc
      exact List.mem_takeWhile_imp hc
    · rw [← hr, Text.trimStart, List.takeWhile_append_dropWhile]
  · cases h

theorem exists_of_splitFirst {sep : Char} {s a b : List Char}
    (h : Text.splitFirst sep s = some (a, b)) : s = a ++ sep :: b ∧ sep ∉ a := by
  induction s generalizing a with
  | nil => cases h
  | cons c s ih =>
    rw [Text.splitFirst] at h
    split at h
    · next hc =>
      cases h
      rw [hc]
      exact ⟨rfl, List.not_mem_nil⟩
    · next hc =>
      obtain ⟨⟨a', b'⟩, hrest, heq⟩ := Option.map_eq_some_iff.mp h
      cases heq
      obtain ⟨hs, ha⟩ := ih hrest
      rw [hs, List.mem_cons, not_or]
      exact ⟨rfl, fun h => hc h.symm, ha⟩

/-- A type is only taken off where there is one, with a colon behind it. -/
theorem exists_of_returnType? {l t d : List Char} (h : returnType? l = some (t, d)) :
    IsReturnType t ∧ ∃ blanks, Text.isBlankLine blanks = true ∧ l = t ++ blanks ++ ':' :: d := by
  unfold returnType? at h
  have hsplit : l.takeWhile isTypeChar ++ l.dropWhile isTypeChar = l :=
    List.takeWhile_append_dropWhile
  have hname : ∀ c ∈ l.takeWhile isTypeChar, isTypeChar c = true := by
    intro c hc
    exact List.mem_takeWhile_imp hc
  simp only at h
  split at h
  · cases h
  · next hne =>
    split at h
    · next r hr =>
      split at h
      · next inner r' hinner =>
        obtain ⟨e, he, heq⟩ := Option.map_eq_some_iff.mp h
        cases heq
        obtain ⟨hr', hnot⟩ := exists_of_splitFirst hinner
        obtain ⟨blanks, hblanks, hrest⟩ := exists_of_afterColon? he
        refine ⟨⟨_, '[' :: inner ++ [']'], by simp, hne, hname, Or.inr ⟨inner, rfl, hnot⟩⟩,
          blanks, hblanks, ?_⟩
        rw [hr, hr', hrest] at hsplit
        simpa using hsplit.symm
      · cases h
    · obtain ⟨e, he, heq⟩ := Option.map_eq_some_iff.mp h
      cases heq
      obtain ⟨blanks, hblanks, hrest⟩ := exists_of_afterColon? he
      refine ⟨⟨_, [], by simp, hne, hname, Or.inl rfl⟩, blanks, hblanks, ?_⟩
      rw [hrest] at hsplit
      simpa using hsplit.symm

/-- The block on a returned value is read as its description. -/
theorem readReturns_eq (title : String) {s : String} (hne : s ≠ "") (h : IsDescription s)
    {line : List Char} {t : Option (List Char)}
    (hline : (returnType? line).map Prod.fst = t)
    (hfirst : Text.trim (((returnType? line).map Prod.snd).getD line) = (linesOf s).headD []) :
    readReturns title (line :: (linesOf s).tail.map (Text.shift 0)) =
      .ok (.returns (t.map String.ofList) s) := by
  have hempty : s.isEmpty = false := by
    rw [Bool.eq_false_iff]
    intro hs
    exact hne (String.isEmpty_iff.mp hs)
  have htype : (returnType? line).map (fun r => String.ofList r.1) = t.map String.ofList := by
    rw [← hline, Option.map_map]
    rfl
  rw [readReturns]
  simp only [List.headD_cons, List.tail_cons, hfirst, h.joinDescription_eq 0, hempty, htype]
  rfl

/-! ## Titles -/

theorem titleOf?_append {title : List Char} (h : IsTitle title) (htrimmed : Text.Trimmed title) :
    titleOf? (title ++ [':']) = some title := by
  obtain ⟨c, rest, rfl, hc, hrest⟩ := h
  have hcolon : isTitleChar ':' = false := by decide
  rw [List.cons_append, titleOf?]
  simp only [List.takeWhile_append_of_pos hrest, List.dropWhile_append_of_pos hrest,
    List.takeWhile_cons, List.dropWhile_cons, hcolon, List.append_nil, Bool.false_eq_true, if_false,
    hc, Text.isBlankLine_nil, Bool.and_self, if_true, htrimmed.trim_eq]

theorem isTitleLine_of_titleOf? {l title : List Char} (h : titleOf? l = some title) :
    IsTitleLine l := by
  unfold titleOf? at h
  split at h
  · cases h
  · next c s =>
    split at h
    · next r hr =>
      split at h
      · next hcond =>
        obtain ⟨hc, hblank⟩ := Bool.and_eq_true_iff.mp hcond
        refine ⟨c :: s.takeWhile isTitleChar, r, ?_, ⟨c, _, rfl, hc, ?_⟩, hblank⟩
        · rw [List.cons_append, ← hr, List.takeWhile_append_dropWhile]
        · intro x hx
          exact List.mem_takeWhile_imp hx
      · cases h
    · cases h

theorem isFence_title {title : List Char} (h : IsTitle title) (rest : List Char) :
    isFence (title ++ rest) = false := by
  obtain ⟨c, r, rfl, hc, -⟩ := h
  have hne : ∀ d : Char, Text.isLetter d = false → (d == c) = false := by
    intro d hd
    rw [beq_eq_false_iff_ne]
    rintro rfl
    rw [hc] at hd
    cases hd
  have hstart : Text.trimStart (c :: r ++ rest) = c :: (r ++ rest) := by
    apply Text.trimStart_of_head?
    intro d hd
    cases hd
    exact Text.isBlank_of_isLetter hc
  rw [isFence, hstart]
  simp only [List.isPrefixOf_cons_cons, hne '`' (by decide), hne '~' (by decide), Bool.false_and,
    Bool.or_self]

/-! ## Sections under titles -/

/-- The lines of a section under a title: the title, and a block that is moved to the right and is
read as the section. -/
structure DocSection.Layout (s : DocSection) (title : List Char) (block : List (List Char)) :
    Prop where
  print : s.print.map Text.trimEnd = (title ++ [':']) :: block.map (Text.shift 4)
  isTitle : IsTitle title
  trimmed : Text.Trimmed title
  first : ∃ l ∈ block.head?, Text.isBlankLine l = false
  last : ∀ l ∈ block.getLast?, Text.isBlankLine l = false
  margin : Text.Margin block
  read : DocSection.read (String.ofList title) block = .ok s

theorem trimEnd_title (title : List Char) : Text.trimEnd (title ++ [':']) = title ++ [':'] := by
  apply Text.trimEnd_of_getLast?
  intro c hc
  rw [List.getLast?_concat, Option.mem_some_iff] at hc
  rw [← hc]
  decide

theorem isBlankLine_eq_false {l : List Char} (hne : l ≠ [])
    (h : ∀ c ∈ l.getLast?, Text.isBlank c = false) : Text.isBlankLine l = false := by
  rw [Text.isBlankLine, List.all_eq_false]
  refine ⟨l.getLast hne, List.getLast_mem hne, ?_⟩
  rw [h _ (List.getLast?_eq_some_getLast hne)]
  decide

theorem forall_getLast?_flatMap {α β : Type} {f : α → List β} {P : β → Prop} {xs : List α}
    (h : ∀ x ∈ xs, ∀ y ∈ (f x).getLast?, P y) : ∀ y ∈ (xs.flatMap f).getLast?, P y := by
  induction xs with
  | nil =>
    intro y hy
    cases hy
  | cons x xs ih =>
    intro y hy
    rw [List.flatMap_cons, List.getLast?_append] at hy
    rcases Option.or_eq_some_iff.mp hy with hy | ⟨-, hy⟩
    · exact ih (fun z hz => h z (List.mem_cons_of_mem x hz)) y hy
    · exact h x List.mem_cons_self y hy

/-- The last line of an entry is not blank. -/
theorem isBlankLine_last_entryBlock {s : String} (h : IsDescription s) {label : List Char} (n : Nat)
    (hline : Text.isBlankLine (Text.trimEnd (label ++ (linesOf s).headD [])) = false) :
    ∀ l ∈ (entryBlock label n s).getLast?, Text.isBlankLine l = false := by
  intro l hl
  rw [entryBlock] at hl
  cases htail : (linesOf s).tail with
  | nil =>
    rw [htail] at hl
    cases hl
    exact hline
  | cons k ks =>
    rw [htail, List.map_cons, List.getLast?_cons_cons, ← List.map_cons, List.getLast?_map] at hl
    obtain ⟨j, hj, rfl⟩ := Option.map_eq_some_iff.mp hl
    have hlines : (linesOf s).getLast? = some j := by
      rw [linesOf_eq_cons s, htail, List.getLast?_cons_cons]
      exact hj
    have hne : s ≠ "" := by
      rintro rfl
      cases htail
    have hjne : j ≠ [] := ne_nil_of_mem_getLast?_linesOf hne h.trimmed.ends j hlines
    rw [Text.isBlankLine_shift]
    exact isBlankLine_eq_false hjne (h.lines j (List.mem_of_getLast? hlines))

namespace DocSection

theorem layout_parameters {items : List DocParameter} (hne : items ≠ [])
    (h : ∀ i ∈ items, i.Fit) :
    Layout (.parameters items) ['A', 'r', 'g', 's'] (parameterBlock items) := by
  have hline : ∀ i ∈ items, ∃ c r, Text.isBlank c = false ∧
      Text.trimEnd (i.label ++ (linesOf i.description).headD []) = c :: r := by
    intro i hi
    obtain ⟨c, r, hheader, hc⟩ := (h i hi).exists_header
    rw [i.trimEnd_line, hheader]
    exact ⟨c, _, hc, rfl⟩
  obtain ⟨i, rest, rfl⟩ : ∃ i rest, items = i :: rest := List.exists_cons_of_ne_nil hne
  obtain ⟨c, r, hc, hfirst⟩ := hline i List.mem_cons_self
  have hblock : ∃ below, parameterBlock (i :: rest) = (c :: r) :: below := by
    rw [parameterBlock, List.flatMap_cons, entryBlock, hfirst]
    exact ⟨_, rfl⟩
  obtain ⟨below, hblock⟩ := hblock
  constructor
  · rw [print, List.map_cons, List.map_flatMap, parameterBlock, List.map_flatMap]
    congr 1
    apply List.flatMap_congr
    intro j hj
    exact map_trimEnd_labelled (h j hj).description j.label 4
  · exact ⟨'A', ['r', 'g', 's'], rfl, by decide, List.all_eq_true.mp (by decide)⟩
  · decide
  · refine ⟨c :: r, by rw [hblock]; rfl, ?_⟩
    rw [Text.isBlankLine_cons, hc]
    rfl
  · refine forall_getLast?_flatMap fun j hj => ?_
    obtain ⟨d, q, hd, hlast⟩ := hline j hj
    refine isBlankLine_last_entryBlock (h j hj).description 4 ?_
    rw [hlast, Text.isBlankLine_cons, hd]
    rfl
  · exact ⟨c, r, by rw [hblock]; exact List.mem_cons_self, hc⟩
  · rw [read, if_pos (by decide), readParameters_parameterBlock _ h]
    rfl

theorem layout_returns {t : Option String} {s : String} (hne : s ≠ "") (h : IsDescription s)
    {c : Char} {r : List Char} (hc : Text.isBlank c = false)
    (hline : Text.trimEnd (returnLabel t ++ (linesOf s).headD []) = c :: r)
    (htype : (returnType? (c :: r)).map Prod.fst = t.map String.toList)
    (hfirst : Text.trim (((returnType? (c :: r)).map Prod.snd).getD (c :: r)) =
      (linesOf s).headD []) :
    Layout (.returns t s) ['R', 'e', 't', 'u', 'r', 'n', 's'] (entryBlock (returnLabel t) 0 s) := by
  have hblank : Text.isBlankLine (c :: r) = false := by
    rw [Text.isBlankLine_cons, hc]
    rfl
  constructor
  · rw [print, List.map_cons, map_trimEnd_labelled h (returnLabel t) 0]
    rfl
  · exact ⟨'R', ['e', 't', 'u', 'r', 'n', 's'], rfl, by decide, List.all_eq_true.mp (by decide)⟩
  · decide
  · exact ⟨c :: r, by rw [entryBlock, hline]; rfl, hblank⟩
  · exact isBlankLine_last_entryBlock h 0 (by rw [hline]; exact hblank)
  · exact ⟨c, r, by rw [entryBlock, hline]; exact List.mem_cons_self, hc⟩
  · rw [read, if_neg (by decide), if_pos (by decide), entryBlock, hline,
      readReturns_eq _ hne h htype hfirst, Option.map_map]
    congr 2
    cases t <;> simp

theorem layout_typedReturns {t s : String} (htype : IsReturnType t.toList) (hne : s ≠ "")
    (h : IsDescription s) :
    Layout (.returns (some t) s) ['R', 'e', 't', 'u', 'r', 'n', 's']
      (entryBlock (returnLabel (some t)) 0 s) := by
  obtain ⟨c, r, hstart, hc⟩ : ∃ c r, t.toList = c :: r ∧ Text.isBlank c = false := by
    obtain ⟨name, bracket, ht, hname, hchars, -⟩ := htype
    obtain ⟨c, r, rfl⟩ := List.exists_cons_of_ne_nil hname
    exact ⟨c, r ++ bracket, ht, Text.isBlank_of_isTypeChar (hchars c List.mem_cons_self)⟩
  have hline : Text.trimEnd (returnLabel (some t) ++ (linesOf s).headD []) =
      t.toList ++ ':' :: Text.trimEnd (' ' :: (linesOf s).headD []) := by
    rw [← trimEnd_label]
    simp [returnLabel]
  have hread := returnType?_label htype (Text.trimEnd (' ' :: (linesOf s).headD []))
  rw [hstart, List.cons_append] at hline hread
  refine layout_returns hne h hc hline ?_ ?_
  · rw [hread, Option.map_some, Option.map_some, hstart]
  · rw [hread]
    exact trim_trimEnd_cons h.trimmed_headD

theorem layout_untypedReturns {s : String} (hne : s ≠ "") (h : IsDescription s)
    (huntyped : ∀ t blanks rest, IsReturnType t → Text.isBlankLine blanks = true →
      (linesOf s).headD [] ≠ t ++ blanks ++ ':' :: rest) :
    Layout (.returns none s) ['R', 'e', 't', 'u', 'r', 'n', 's']
      (entryBlock (returnLabel none) 0 s) := by
  have hfirst := h.trimmed_headD
  have hline : Text.trimEnd (returnLabel none ++ (linesOf s).headD []) = (linesOf s).headD [] :=
    Text.trimEnd_of_getLast? hfirst.ends
  have hread : returnType? ((linesOf s).headD []) = none := by
    cases hread : returnType? ((linesOf s).headD []) with
    | none => rfl
    | some typed =>
      obtain ⟨t, d⟩ := typed
      obtain ⟨ht, blanks, hblanks, heq⟩ := exists_of_returnType? hread
      exact absurd heq (huntyped t blanks d ht hblanks)
  obtain ⟨c, r, hstart⟩ := List.exists_cons_of_ne_nil (h.headD_ne_nil hne)
  rw [hstart] at hline hread hfirst
  refine layout_returns (r := r) hne h (hfirst.starts c rfl) ?_ ?_ ?_
  · rw [hstart]
    exact hline
  · rw [hread]
    rfl
  · rw [hread, hstart]
    exact hfirst.trim_eq

theorem layout_admonition {title body : String} (htitle : IsTitle title.toList)
    (htrimmed : Text.Trimmed title.toList)
    (hother : String.ofList (title.toList.map Char.toLower) ∉ parameterTitles ++ returnTitles)
    (hlines : LinesTrimmed body)
    (hfirst : ∀ l ∈ (linesOf body).head?, Text.isBlankLine l = false)
    (hlast : ∀ l ∈ (linesOf body).getLast?, Text.isBlankLine l = false)
    (hmargin : Text.Margin (linesOf body)) :
    Layout (.admonition title (tagOf title) body) title.toList (linesOf body) := by
  obtain ⟨hparameters, hreturns⟩ := not_or.mp (mt List.mem_append.mpr hother)
  constructor
  · rw [print, List.map_cons, trimEnd_title, List.map_map]
    congr 1
    apply List.map_congr_left
    intro l hl
    have htrim : Text.trimEnd l = l := Text.trimEnd_of_getLast? (hlines l hl)
    by_cases hnil : l = []
    · rw [hnil]
      rfl
    · have hblank := isBlankLine_eq_false hnil (hlines l hl)
      rw [Function.comp_apply, hblank, Text.shift_of_ne_nil hnil]
      show Text.trimEnd (Text.indent 4 l) = _
      rw [Text.trimEnd_indent, htrim, Text.shift_of_ne_nil hnil]
  · exact htitle
  · exact htrimmed
  · refine ⟨(linesOf body).headD [], ?_, ?_⟩
    · rw [linesOf_eq_cons body]
      rfl
    · apply hfirst
      rw [linesOf_eq_cons body]
      rfl
  · exact hlast
  · exact hmargin
  · rw [String.ofList_toList, read]
    simp only [if_neg hparameters, if_neg hreturns, joinLines_linesOf, String.ofList_toList]

end DocSection

end ApiPages
