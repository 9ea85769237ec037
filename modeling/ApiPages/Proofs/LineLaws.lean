import ApiPages.Text.Indent
import Mathlib.Data.List.TakeWhile

/-!
# Laws of lines and indentation

Lines that are joined are cut apart again, and lines that were moved to the right are moved back by
their common indentation.

Results:

* `Text.map_linesInclusive_joinLines`, `Text.lines_joinLines`: the lines of joined lines.
* `Text.stripIndent_append`: blanks in front of a line are taken off again.
* `Text.commonIndent_spec`: what the common indentation of lines is.
* `Text.dedent_map_shift`: moving lines to the right is undone if one of them started at the margin.
-/

namespace ApiPages.Text

/-! ## Ends of texts -/

/-- The text neither starts nor ends with a blank. -/
structure Trimmed (s : List Char) : Prop where
  starts : ∀ c ∈ s.head?, isBlank c = false
  ends : ∀ c ∈ s.getLast?, isBlank c = false

/-- The character, if there is one, is not blank. -/
def notBlank (c : Option Char) : Bool := c.all fun c => !isBlank c

theorem notBlank_iff {c : Option Char} : notBlank c = true ↔ ∀ x ∈ c, isBlank x = false := by
  cases c <;> simp [notBlank]

instance (s : List Char) : Decidable (Trimmed s) :=
  decidable_of_iff (notBlank s.head? = true ∧ notBlank s.getLast? = true)
    ⟨fun h => ⟨notBlank_iff.mp h.1, notBlank_iff.mp h.2⟩,
      fun h => ⟨notBlank_iff.mpr h.starts, notBlank_iff.mpr h.ends⟩⟩

theorem dropEndWhile_of_getLast? {α : Type} {p : α → Bool} {s : List α}
    (h : ∀ x ∈ s.getLast?, p x = false) : dropEndWhile p s = s := by
  unfold dropEndWhile
  rw [← List.head?_reverse] at h
  cases hs : s.reverse with
  | nil =>
    rw [List.reverse_eq_nil_iff] at hs
    rw [hs]
    rfl
  | cons x r =>
    have hx : p x = false := h x (by rw [hs]; rfl)
    rw [List.dropWhile_cons, hx, ← hs]
    simp

theorem dropEndWhile_append {α : Type} {p : α → Bool} (s t : List α) :
    dropEndWhile p (s ++ t) =
      if dropEndWhile p t = [] then dropEndWhile p s else s ++ dropEndWhile p t := by
  unfold dropEndWhile
  rw [List.reverse_append, List.dropWhile_append]
  by_cases h : t.reverse.dropWhile p = []
  · simp [h]
  · simp [h]

theorem dropEndWhile_eq_nil {α : Type} {p : α → Bool} {s : List α} (h : ∀ x ∈ s, p x = true) :
    dropEndWhile p s = [] := by
  unfold dropEndWhile
  rw [List.reverse_eq_nil_iff, List.dropWhile_eq_nil_iff]
  intro x hx
  exact h x (List.mem_reverse.mp hx)

/-- What is dropped at the end of a text may as well be missing. -/
theorem dropEndWhile_append_of_all {α : Type} {p : α → Bool} (s : List α) {t : List α}
    (h : ∀ x ∈ t, p x = true) : dropEndWhile p (s ++ t) = dropEndWhile p s := by
  rw [dropEndWhile_append, if_pos (dropEndWhile_eq_nil h)]

theorem dropEndWhile_prefix {α : Type} (p : α → Bool) (s : List α) : dropEndWhile p s <+: s := by
  rw [← List.reverse_suffix, dropEndWhile, List.reverse_reverse]
  exact List.dropWhile_suffix p

theorem trimStart_of_head? {s : List Char} (h : ∀ c ∈ s.head?, isBlank c = false) :
    trimStart s = s := by
  cases s with
  | nil => rfl
  | cons c s =>
    have hc : isBlank c = false := h c rfl
    rw [trimStart, List.dropWhile_cons, hc]
    simp

theorem trimEnd_of_getLast? {s : List Char} (h : ∀ c ∈ s.getLast?, isBlank c = false) :
    trimEnd s = s :=
  dropEndWhile_of_getLast? h

theorem Trimmed.trim_eq {s : List Char} (h : Trimmed s) : trim s = s := by
  rw [trim, trimStart_of_head? h.starts, trimEnd_of_getLast? h.ends]

/-- Nothing that is dropped is left at the end. -/
theorem getLast?_dropEndWhile {α : Type} (p : α → Bool) (s : List α) :
    ∀ x ∈ (dropEndWhile p s).getLast?, p x = false := by
  intro x hx
  rw [dropEndWhile, List.getLast?_reverse] at hx
  have hhead := List.head?_dropWhile_not p s.reverse
  rw [hx] at hhead
  simpa using hhead

/-- A text that was trimmed at its end does not end with a blank. -/
theorem getLast?_trimEnd (s : List Char) : ∀ c ∈ (trimEnd s).getLast?, isBlank c = false :=
  getLast?_dropEndWhile isBlank s

theorem mem_of_mem_trimEnd {c : Char} {s : List Char} (h : c ∈ trimEnd s) : c ∈ s := by
  rw [trimEnd, dropEndWhile, List.mem_reverse] at h
  exact List.mem_reverse.mp ((List.dropWhile_suffix _).subset h)

/-! ## Lines -/

theorem linesInclusive_append {l s : List Char} (hl : '\n' ∉ l) :
    linesInclusive (l ++ '\n' :: s) = (l ++ ['\n']) :: linesInclusive s := by
  induction l with
  | nil => simp [linesInclusive]
  | cons c l ih =>
    obtain ⟨hc, hl⟩ := not_or.mp (mt List.mem_cons.mpr hl)
    rw [List.cons_append, linesInclusive, if_neg (Ne.symm hc), ih hl]
    rfl

theorem linesInclusive_of_not_mem {l : List Char} (hl : '\n' ∉ l) (hne : l ≠ []) :
    linesInclusive l = [l] := by
  induction l with
  | nil => exact absurd rfl hne
  | cons c l ih =>
    obtain ⟨hc, hl⟩ := not_or.mp (mt List.mem_cons.mpr hl)
    rw [linesInclusive, if_neg (Ne.symm hc)]
    cases l with
    | nil => rfl
    | cons d l => rw [ih hl (List.cons_ne_nil d l)]; rfl

/-- Joined lines are cut apart again; all but the last one have a line feed then. -/
theorem map_linesInclusive_joinLines {β : Type} {f g : List Char → β} {ls : List (List Char)}
    (hfree : ∀ l ∈ ls, '\n' ∉ l) (hlast : ∀ l ∈ ls.getLast?, l ≠ [])
    (hfeed : ∀ l ∈ ls, f (l ++ ['\n']) = g l) (hplain : ∀ l ∈ ls, f l = g l) :
    (linesInclusive (joinLines ls)).map f = ls.map g := by
  induction ls with
  | nil => rfl
  | cons l ls ih =>
    have hl : '\n' ∉ l := hfree l List.mem_cons_self
    cases ls with
    | nil =>
      have hne : l ≠ [] := hlast l rfl
      rw [joinLines, joinWith, linesInclusive_of_not_mem hl hne, List.map_singleton,
        List.map_singleton, hplain l List.mem_cons_self]
    | cons k ls =>
      have hrest := ih (fun j hj => hfree j (List.mem_cons_of_mem l hj))
        (fun j hj => hlast j (by rw [List.getLast?_cons_cons]; exact hj))
        (fun j hj => hfeed j (List.mem_cons_of_mem l hj))
        (fun j hj => hplain j (List.mem_cons_of_mem l hj))
      have hjoin : joinLines (l :: k :: ls) = l ++ '\n' :: joinLines (k :: ls) := by
        rw [joinLines, joinWith, List.append_assoc]
        rfl
      rw [hjoin, linesInclusive_append hl, List.map_cons, hrest, List.map_cons,
        hfeed l List.mem_cons_self]
      rfl

theorem dropLineEnd_append {l : List Char} (hl : ∀ c ∈ l.getLast?, isBlank c = false) :
    dropLineEnd (l ++ ['\n']) = l := by
  unfold dropLineEnd
  rw [List.reverse_concat]
  cases hr : l.reverse with
  | nil =>
    rw [List.reverse_eq_nil_iff] at hr
    rw [hr]
    rfl
  | cons c r =>
    have hc : isBlank c = false := by
      apply hl c
      rw [← List.head?_reverse, hr]
      rfl
    split
    · next heq =>
      cases heq
      exact absurd hc (by decide)
    · next heq =>
      cases heq
      rw [← hr, List.reverse_reverse]
    · next h => exact absurd rfl (h _)

theorem dropLineEnd_of_not_mem {l : List Char} (hl : '\n' ∉ l) : dropLineEnd l = l := by
  unfold dropLineEnd
  have hhead : ∀ r, l.reverse ≠ '\n' :: r := by
    intro r hr
    apply hl
    rw [← List.mem_reverse, hr]
    exact List.mem_cons_self
  split
  · next h => exact absurd h (hhead _)
  · next h => exact absurd h (hhead _)
  · rfl

/-- Lines that do not end with blanks are the lines of their text. -/
theorem lines_joinLines {ls : List (List Char)} (hfree : ∀ l ∈ ls, '\n' ∉ l)
    (hlast : ∀ l ∈ ls.getLast?, l ≠ [])
    (hends : ∀ l ∈ ls, ∀ c ∈ l.getLast?, isBlank c = false) : lines (joinLines ls) = ls := by
  have h := map_linesInclusive_joinLines (g := id) hfree hlast
    (fun l hl => dropLineEnd_append (hends l hl))
    (fun l hl => dropLineEnd_of_not_mem (hfree l hl))
  rw [lines, h, List.map_id]

/-- A line end is made of blanks. -/
theorem trimEnd_dropLineEnd (l : List Char) : trimEnd (dropLineEnd l) = trimEnd l := by
  have hfeed : ∀ c ∈ ['\n'], isBlank c = true := List.all_eq_true.mp (by decide)
  have hreturn : ∀ c ∈ ['\r', '\n'], isBlank c = true := List.all_eq_true.mp (by decide)
  unfold dropLineEnd
  split
  · next r h =>
    have hl : l = r.reverse ++ ['\r', '\n'] := by
      rw [← List.reverse_reverse l, h]
      simp
    rw [hl, trimEnd, trimEnd, dropEndWhile_append_of_all _ hreturn]
  · next r _ h =>
    have hl : l = r.reverse ++ ['\n'] := by
      rw [← List.reverse_reverse l, h]
      simp
    rw [hl, trimEnd, trimEnd, dropEndWhile_append_of_all _ hfeed]
  · rfl

/-- The lines of joined lines, without the blanks at their ends. -/
theorem map_trimEnd_lines_joinLines {ls : List (List Char)} (hfree : ∀ l ∈ ls, '\n' ∉ l)
    (hlast : ∀ l ∈ ls.getLast?, l ≠ []) :
    (lines (joinLines ls)).map trimEnd = ls.map trimEnd := by
  rw [lines, List.map_map]
  refine map_linesInclusive_joinLines hfree hlast (fun l _ => ?_) (fun l _ => ?_)
  · have hfeed : ∀ c ∈ ['\n'], isBlank c = true := List.all_eq_true.mp (by decide)
    rw [Function.comp_apply, trimEnd_dropLineEnd, trimEnd, dropEndWhile_append_of_all l hfeed]
    rfl
  · exact trimEnd_dropLineEnd l

/-! ## Blanks in front of lines -/

theorem isBlankLine_append (s t : List Char) :
    isBlankLine (s ++ t) = (isBlankLine s && isBlankLine t) :=
  List.all_append

theorem byteLength_append (s t : List Char) :
    byteLength (s ++ t) = byteLength s + byteLength t := by
  induction s with
  | nil => simp [byteLength]
  | cons c s ih =>
    have hcons (r : List Char) : byteLength (c :: r) = c.utf8Size + byteLength r := rfl
    rw [List.cons_append, hcons, hcons, ih, Nat.add_assoc]

/-- Whole characters are dropped as such. -/
theorem dropBytes?_append (w l : List Char) (n : Nat) :
    dropBytes? (byteLength w + n) (w ++ l) = dropBytes? n l := by
  induction w with
  | nil => simp [byteLength]
  | cons c w ih =>
    have hsize : 0 < c.utf8Size := c.utf8Size_pos
    have hcons : byteLength (c :: w) = c.utf8Size + byteLength w := rfl
    obtain ⟨k, hk⟩ : ∃ k, byteLength (c :: w) + n = k + 1 :=
      ⟨byteLength (c :: w) + n - 1, by omega⟩
    rw [hk, List.cons_append, dropBytes?, if_pos (by omega), ← ih]
    congr 1
    omega

theorem stripIndent_nil (n : Nat) : stripIndent n [] = [] := by
  cases n with
  | zero => rfl
  | succ n => rfl

theorem stripIndent_zero (l : List Char) : stripIndent 0 l = l := by
  rw [stripIndent, if_pos (Nat.zero_le _), dropBytes?]
  rfl

/-- The line with `w` in front, unless it is empty. -/
def shiftBy (w l : List Char) : List Char := if l = [] then [] else w ++ l

theorem shiftBy_of_ne_nil {w l : List Char} (h : l ≠ []) : shiftBy w l = w ++ l := if_neg h

theorem shiftBy_eq_nil_iff {w l : List Char} : shiftBy w l = [] ↔ l = [] := by
  unfold shiftBy
  split
  · next h => simp [h]
  · next h => simp [h]

section Blanks

variable {w : List Char} (hw : isBlankLine w = true)
include hw

theorem trimStart_append_blanks (l : List Char) : trimStart (w ++ l) = trimStart l :=
  List.dropWhile_append_of_pos (List.all_eq_true.mp hw)

theorem trimEnd_append_blanks (l : List Char) : trimEnd (w ++ l) = shiftBy w (trimEnd l) := by
  unfold trimEnd
  rw [dropEndWhile_append, dropEndWhile_eq_nil (List.all_eq_true.mp hw), shiftBy]

theorem isBlankLine_shiftBy (l : List Char) : isBlankLine (shiftBy w l) = isBlankLine l := by
  unfold shiftBy
  split
  · next h => rw [h]
  · rw [isBlankLine_append, hw, Bool.true_and]

theorem indentation_append (l : List Char) :
    indentation (w ++ l) = byteLength w + indentation l := by
  rw [indentation, List.takeWhile_append_of_pos (List.all_eq_true.mp hw), byteLength_append,
    indentation]

/-- A line that is moved to the right loses that much more. -/
theorem stripIndent_append (n : Nat) (l : List Char) :
    stripIndent (byteLength w + n) (w ++ l) = stripIndent n l := by
  rw [stripIndent, stripIndent, indentation_append hw, dropBytes?_append,
    trimStart_append_blanks hw]
  simp only [Nat.add_le_add_iff_left]

end Blanks

/-! ## The common indentation -/

/-- Some line starts at the margin, and not with a blank. -/
def Margin (ls : List (List Char)) : Prop := ∃ c l, (c :: l) ∈ ls ∧ isBlank c = false

section CommonIndent

variable {ls : List (List Char)}

/-- The common indentation is that of some line and no more than that of any; blank lines do not
count. -/
theorem commonIndent_spec {l : List Char} (hl : l ∈ ls) (hblank : isBlankLine l = false) :
    (∃ k ∈ ls, isBlankLine k = false ∧ indentation k = commonIndent ls) ∧
      ∀ k ∈ ls, isBlankLine k = false → commonIndent ls ≤ indentation k := by
  have hmem : ∀ k, k ∈ ls.filter (fun l => !isBlankLine l) ↔ k ∈ ls ∧ isBlankLine k = false := by
    intro k
    rw [List.mem_filter, Bool.not_eq_true']
  have hsome : ((ls.filter fun l => !isBlankLine l).map indentation).min? =
      some (commonIndent ls) := by
    rw [commonIndent]
    cases hmin : ((ls.filter fun l => !isBlankLine l).map indentation).min? with
    | some n => rfl
    | none =>
      rw [List.min?_eq_none_iff, List.map_eq_nil_iff] at hmin
      have hin := (hmem l).mpr ⟨hl, hblank⟩
      rw [hmin] at hin
      cases hin
  obtain ⟨hattained, hleast⟩ := List.min?_eq_some_iff.mp hsome
  constructor
  · obtain ⟨k, hk, heq⟩ := List.mem_map.mp hattained
    obtain ⟨hk, hkblank⟩ := (hmem k).mp hk
    exact ⟨k, hk, hkblank, heq⟩
  · intro k hk hkblank
    exact hleast _ (List.mem_map_of_mem ((hmem k).mpr ⟨hk, hkblank⟩))

theorem commonIndent_of_margin (h : Margin ls) : commonIndent ls = 0 := by
  obtain ⟨c, l, hmem, hc⟩ := h
  have hblank : isBlankLine (c :: l) = false := by
    rw [isBlankLine_cons, hc]
    rfl
  have hzero : indentation (c :: l) = 0 := by
    rw [indentation, List.takeWhile_cons, hc]
    rfl
  have hle := (commonIndent_spec hmem hblank).2 _ hmem hblank
  omega

/-- Lines that are moved to the right have that much more in common. -/
theorem commonIndent_map_shiftBy {w : List Char} (hw : isBlankLine w = true) {l : List Char}
    (hl : l ∈ ls) (hblank : isBlankLine l = false) :
    commonIndent (ls.map (shiftBy w)) = byteLength w + commonIndent ls := by
  have hmoved : ∀ k, isBlankLine k = false →
      indentation (shiftBy w k) = byteLength w + indentation k := by
    intro k hk
    have hne : k ≠ [] := by
      rintro rfl
      cases hk
    rw [shiftBy_of_ne_nil hne, indentation_append hw]
  -- the line that is least indented is so before and after
  obtain ⟨⟨k, hk, hkblank, hkindent⟩, hleast⟩ := commonIndent_spec hl hblank
  obtain ⟨⟨_, hmoved', hjblank, hjindent⟩, hleast'⟩ := commonIndent_spec
    (List.mem_map_of_mem hl) ((isBlankLine_shiftBy hw l).trans hblank)
  obtain ⟨j, hj, rfl⟩ := List.mem_map.mp hmoved'
  rw [isBlankLine_shiftBy hw] at hjblank
  have hle := hleast' _ (List.mem_map_of_mem hk) ((isBlankLine_shiftBy hw k).trans hkblank)
  have hge := hleast j hj hjblank
  rw [hmoved k hkblank, hkindent] at hle
  rw [hmoved j hjblank] at hjindent
  omega

end CommonIndent

/-! ## Spaces in front of lines -/

/-- The line moved to the right. -/
def indent (n : Nat) (l : List Char) : List Char := List.replicate n ' ' ++ l

/-- The line moved to the right, unless it is empty. -/
def shift (n : Nat) (l : List Char) : List Char := if l = [] then [] else indent n l

@[simp] theorem shift_nil (n : Nat) : shift n [] = [] := rfl

theorem shift_of_ne_nil {n : Nat} {l : List Char} (h : l ≠ []) : shift n l = indent n l :=
  if_neg h

theorem shift_eq_shiftBy (n : Nat) : shift n = shiftBy (List.replicate n ' ') := rfl

theorem shift_shift (m n : Nat) (l : List Char) : shift m (shift n l) = shift (m + n) l := by
  by_cases h : l = []
  · rw [h]
    rfl
  · have hne : indent n l ≠ [] := by simp [indent, h]
    rw [shift_of_ne_nil h, shift_of_ne_nil hne, shift_of_ne_nil h, indent, indent, indent,
      ← List.append_assoc, List.replicate_append_replicate]

theorem isBlankLine_spaces (n : Nat) : isBlankLine (List.replicate n ' ') = true := by
  rw [isBlankLine, List.all_eq_true]
  intro c hc
  rw [List.eq_of_mem_replicate hc]
  decide

theorem byteLength_spaces (n : Nat) : byteLength (List.replicate n ' ') = n := by
  induction n with
  | zero => rfl
  | succ n ih =>
    have hsize : (' ' : Char).utf8Size = 1 := by decide
    have hstep : byteLength (List.replicate (n + 1) ' ') =
        (' ' : Char).utf8Size + byteLength (List.replicate n ' ') := rfl
    rw [hstep, ih, hsize, Nat.add_comm]

/-- An indented line without the blanks at its end. -/
theorem trimEnd_indent (n : Nat) (l : List Char) :
    trimEnd (indent n l) = shift n (trimEnd l) :=
  trimEnd_append_blanks (isBlankLine_spaces n) l

theorem isBlankLine_shift (n : Nat) (l : List Char) : isBlankLine (shift n l) = isBlankLine l :=
  isBlankLine_shiftBy (isBlankLine_spaces n) l

theorem stripIndent_shift (n : Nat) (l : List Char) : stripIndent n (shift n l) = l := by
  by_cases h : l = []
  · rw [h, shift_nil, stripIndent_nil]
  · have hstrip := stripIndent_append (isBlankLine_spaces n) 0 l
    rw [byteLength_spaces, Nat.add_zero, stripIndent_zero] at hstrip
    rw [shift_of_ne_nil h]
    exact hstrip

/-- Moving lines to the right is undone if one of them started at the margin. -/
theorem dedent_map_shift {ls : List (List Char)} (h : Margin ls) (n : Nat) :
    dedent (ls.map (shift n)) = ls := by
  have hcommon : commonIndent (ls.map (shift n)) = n := by
    obtain ⟨c, l, hmem, hc⟩ := id h
    have hblank : isBlankLine (c :: l) = false := by
      rw [isBlankLine_cons, hc]
      rfl
    rw [shift_eq_shiftBy, commonIndent_map_shiftBy (isBlankLine_spaces n) hmem hblank,
      byteLength_spaces, commonIndent_of_margin h, Nat.add_zero]
  rw [dedent, hcommon, List.map_map]
  apply List.map_id''
  intro l
  exact stripIndent_shift n l

theorem dedent_of_margin {ls : List (List Char)} (h : Margin ls) : dedent ls = ls := by
  rw [dedent, commonIndent_of_margin h]
  apply List.map_id''
  exact stripIndent_zero

end ApiPages.Text
