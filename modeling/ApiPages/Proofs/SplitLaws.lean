import ApiPages.Text.Lines

/-!
# Laws of splitting and joining

Texts that are joined are cut apart again, and the other way round.

Results:

* `Text.afterStart_eq_some_iff`, `Text.beforeEnd_eq_some_iff`: what stands behind a start and in
  front of an end.
* `Text.append_cons_inj`, `Text.append_cons_inj_left`: a text is cut in one way at the last or the
  first occurrence of a character.
* `Text.splitOn_append`, `Text.splitOn_joinWith`: the pieces of texts that were put together.
* `Text.joinWith_append`, `Text.flatMap_append_joinWith`: joined pieces in two parts.
* `Text.splitLast_cases`: the cut at the last separator.
-/

namespace ApiPages.Text

/-! ## Starts and ends -/

theorem afterStart_eq_some_iff (p s r : List Char) :
    afterStart p s = some r ↔ s = p ++ r := by
  unfold afterStart
  split
  · next h =>
    obtain ⟨t, rfl⟩ := List.isPrefixOf_iff_prefix.mp h
    simp only [List.drop_left, Option.some.injEq, List.append_cancel_left_eq]
  · next h =>
    simp only [reduceCtorEq, false_iff]
    rintro rfl
    exact h (List.isPrefixOf_iff_prefix.mpr (List.prefix_append p r))

theorem beforeEnd_eq_some_iff {p s r : List Char} :
    beforeEnd p s = some r ↔ s = r ++ p := by
  rw [beforeEnd, Option.map_eq_some_iff]
  constructor
  · rintro ⟨t, ht, rfl⟩
    rw [afterStart_eq_some_iff] at ht
    rw [← List.reverse_reverse s, ht, List.reverse_append, List.reverse_reverse]
  · rintro rfl
    refine ⟨r.reverse, ?_, List.reverse_reverse r⟩
    rw [afterStart_eq_some_iff, List.reverse_append]

/-- A text without a character that starts in front of that character ends in front of it. -/
theorem prefix_of_append_cons {k s t : List Char} {c : Char} (hc : c ∉ k)
    (h : k <+: s ++ c :: t) : k <+: s := by
  induction k generalizing s with
  | nil => exact List.nil_prefix
  | cons x k ih =>
    obtain ⟨hx, hk⟩ := not_or.mp (fun h => hc (List.mem_cons.mpr h))
    cases s with
    | nil => exact absurd (List.cons_prefix_cons.mp h).1.symm hx
    | cons y s =>
      obtain ⟨hxy, htail⟩ := List.cons_prefix_cons.mp h
      exact List.cons_prefix_cons.mpr ⟨hxy, ih hk htail⟩

/-- A text is cut in one way at the last occurrence of a character. -/
theorem append_cons_inj {c : Char} {a b x y : List Char} (hx : c ∉ x) (hy : c ∉ y)
    (h : a ++ c :: x = b ++ c :: y) : a = b ∧ x = y := by
  -- an occurrence of one side inside the end of the other is excluded
  rcases List.append_eq_append_iff.mp h with ⟨t, rfl, ht⟩ | ⟨t, rfl, ht⟩
  · cases t with
    | nil =>
      obtain ⟨-, hxy⟩ := List.cons.inj ht
      exact ⟨(List.append_nil a).symm, hxy⟩
    | cons d t =>
      obtain ⟨-, rfl⟩ := List.cons.inj ht
      exact absurd (List.mem_append_right t List.mem_cons_self) hx
  · cases t with
    | nil =>
      obtain ⟨-, hxy⟩ := List.cons.inj ht
      exact ⟨List.append_nil b, hxy.symm⟩
    | cons d t =>
      obtain ⟨-, rfl⟩ := List.cons.inj ht
      exact absurd (List.mem_append_right t List.mem_cons_self) hy

/-- A text is cut in one way at the first occurrence of a character. -/
theorem append_cons_inj_left {c : Char} {a b x y : List Char} (ha : c ∉ a) (hb : c ∉ b)
    (h : a ++ c :: x = b ++ c :: y) : a = b ∧ x = y := by
  rw [← List.reverse_inj] at h
  simp only [List.reverse_append, List.reverse_cons, List.append_assoc, List.singleton_append] at h
  obtain ⟨hx, ha⟩ := append_cons_inj (mt List.mem_reverse.mp ha) (mt List.mem_reverse.mp hb) h
  exact ⟨List.reverse_inj.mp ha, List.reverse_inj.mp hx⟩

/-! ## Cutting at every separator -/

theorem splitOn_of_not_mem {sep : Char} {s : List Char} (h : sep ∉ s) :
    splitOn sep s = [s] := by
  induction s with
  | nil => rfl
  | cons c s ih =>
    rw [List.mem_cons, not_or] at h
    rw [splitOn, if_neg (Ne.symm h.1), ih h.2]
    rfl

theorem splitOn_append {sep : Char} (s t : List Char) :
    splitOn sep (s ++ sep :: t) = splitOn sep s ++ splitOn sep t := by
  induction s with
  | nil => simp [splitOn]
  | cons c s ih =>
    rw [List.cons_append, splitOn, splitOn, ih]
    split
    · rfl
    · obtain ⟨p, ps, hp⟩ := List.exists_cons_of_ne_nil (splitOn_ne_nil sep s)
      rw [hp]
      rfl

/-- The last piece of one text and the first piece of the next grow together. -/
theorem exists_splitOn_append (sep : Char) (s t : List Char) :
    ∃ init x y ys, splitOn sep s = init ++ [x] ∧ splitOn sep t = y :: ys ∧
      splitOn sep (s ++ t) = init ++ (x ++ y) :: ys := by
  obtain ⟨y, ys, ht⟩ := List.exists_cons_of_ne_nil (splitOn_ne_nil sep t)
  induction s with
  | nil => exact ⟨[], [], y, ys, rfl, ht, ht⟩
  | cons c s ih =>
    obtain ⟨init, x, y, ys, hs, ht, hst⟩ := ih
    rw [List.cons_append, splitOn, splitOn, hs, hst]
    split
    · exact ⟨[] :: init, x, y, ys, rfl, ht, rfl⟩
    · cases init with
      | nil => exact ⟨[], c :: x, y, ys, rfl, ht, rfl⟩
      | cons p init => exact ⟨(c :: p) :: init, x, y, ys, rfl, ht, rfl⟩

/-- The pieces of a text have no characters but those of the text. -/
theorem mem_of_mem_splitOn {c s : Char} {text p : List Char} (hp : p ∈ splitOn s text)
    (hc : c ∈ p) : c ∈ text := by
  induction text generalizing p with
  | nil =>
    rw [splitOn, List.mem_singleton] at hp
    rw [hp] at hc
    cases hc
  | cons d text ih =>
    rw [splitOn] at hp
    split at hp
    · rcases List.mem_cons.mp hp with rfl | hp
      · cases hc
      · exact List.mem_cons_of_mem d (ih hp hc)
    · obtain ⟨q, qs, hq⟩ := List.exists_cons_of_ne_nil (splitOn_ne_nil s text)
      rw [hq, consFirst] at hp
      rw [hq] at ih
      rcases List.mem_cons.mp hp with rfl | hp
      · rcases List.mem_cons.mp hc with rfl | hc
        · exact List.mem_cons_self
        · exact List.mem_cons_of_mem d (ih List.mem_cons_self hc)
      · exact List.mem_cons_of_mem d (ih (List.mem_cons_of_mem q hp) hc)

theorem sep_not_mem_of_mem_splitOn {sep : Char} {s p : List Char} (hp : p ∈ splitOn sep s) :
    sep ∉ p := by
  induction s generalizing p with
  | nil =>
    rw [splitOn, List.mem_singleton] at hp
    rw [hp]
    exact List.not_mem_nil
  | cons c s ih =>
    by_cases hc : c = sep
    · rw [splitOn, if_pos hc, List.mem_cons] at hp
      rcases hp with rfl | hp
      · exact List.not_mem_nil
      · exact ih hp
    · rw [splitOn, if_neg hc] at hp
      cases hs : splitOn sep s with
      | nil => exact absurd hs (splitOn_ne_nil sep s)
      | cons q qs =>
        rw [hs, consFirst, List.mem_cons] at hp
        rcases hp with rfl | hp
        · rw [List.mem_cons, not_or]
          exact ⟨fun h => hc h.symm, ih (by rw [hs]; exact List.mem_cons_self)⟩
        · exact ih (by rw [hs]; exact List.mem_cons_of_mem q hp)

/-! ## Joining -/

section

variable {sep : List Char} {ps qs : List (List Char)}

theorem joinWith_append (hps : ps ≠ []) (hqs : qs ≠ []) :
    joinWith sep (ps ++ qs) = joinWith sep ps ++ sep ++ joinWith sep qs := by
  induction ps with
  | nil => exact absurd rfl hps
  | cons p ps ih =>
    cases ps with
    | nil =>
      obtain ⟨q, qs, rfl⟩ := List.exists_cons_of_ne_nil hqs
      rfl
    | cons r ps =>
      have hrest := ih (List.cons_ne_nil r ps)
      rw [List.cons_append] at hrest
      rw [List.cons_append, List.cons_append, joinWith, joinWith, hrest]
      simp only [List.append_assoc]

/-- Pieces that each have the separator behind them, in front of joined pieces. -/
theorem flatMap_append_joinWith (ps : List (List Char)) (hqs : qs ≠ []) :
    (ps.flatMap fun p => p ++ sep) ++ joinWith sep qs = joinWith sep (ps ++ qs) := by
  induction ps with
  | nil => rfl
  | cons p ps ih =>
    obtain ⟨r, rs, hrest⟩ := List.exists_cons_of_ne_nil (List.append_ne_nil_of_right_ne_nil ps hqs)
    rw [List.flatMap_cons, List.append_assoc, ih, List.cons_append, hrest, joinWith]

theorem joinWith_append_sep (hps : ps ≠ []) :
    joinWith sep ps ++ sep = ps.flatMap fun p => p ++ sep := by
  have hlast : joinWith sep (ps ++ [[]]) = joinWith sep ps ++ sep ++ joinWith sep [[]] :=
    joinWith_append hps (List.cons_ne_nil [] [])
  rw [← flatMap_append_joinWith ps (List.cons_ne_nil [] [])] at hlast
  simpa [joinWith] using hlast.symm

/-- A separator that no piece has stands once behind each of them. -/
theorem count_flatMap_sep {c : Char} (h : ∀ p ∈ ps, c ∉ p) :
    (ps.flatMap fun p => p ++ [c]).count c = ps.length := by
  induction ps with
  | nil => rfl
  | cons p ps ih =>
    obtain ⟨hp, hps⟩ := List.forall_mem_cons.mp h
    rw [List.flatMap_cons, List.count_append, List.count_append, List.count_eq_zero.mpr hp,
      List.count_singleton_self, ih hps, List.length_cons]
    omega

end

theorem exists_joinWith_eq_cons (sep : List Char) (c : Char) (s : List Char)
    (ps : List (List Char)) : ∃ t, joinWith sep ((c :: s) :: ps) = c :: t := by
  cases ps with
  | nil => exact ⟨s, rfl⟩
  | cons p ps => exact ⟨_, rfl⟩

/-- Pieces without separators are found again between separators. -/
theorem splitOn_joinWith {sep : Char} {ps : List (List Char)} (hne : ps ≠ [])
    (hps : ∀ p ∈ ps, sep ∉ p) : splitOn sep (joinWith [sep] ps) = ps := by
  induction ps with
  | nil => exact absurd rfl hne
  | cons p ps ih =>
    have hp := splitOn_of_not_mem (hps p List.mem_cons_self)
    cases ps with
    | nil => exact hp
    | cons q ps =>
      rw [joinWith, List.append_assoc, List.singleton_append, splitOn_append, hp,
        ih (List.cons_ne_nil q ps) fun r hr => hps r (List.mem_cons_of_mem p hr)]
      rfl

theorem eq_or_exists_of_splitOn_suffix {sep : Char} {s t : List Char}
    (h : splitOn sep s <:+ splitOn sep t) : t = s ∨ ∃ r, t = r ++ sep :: s := by
  obtain ⟨before, h⟩ := h
  have htext : t = joinWith [sep] (before ++ splitOn sep s) := by rw [h, joinWith_splitOn]
  cases before with
  | nil => exact Or.inl (by rw [htext, List.nil_append, joinWith_splitOn])
  | cons p ps =>
    refine Or.inr ⟨joinWith [sep] (p :: ps), ?_⟩
    rw [htext, joinWith_append (List.cons_ne_nil p ps) (splitOn_ne_nil sep s), joinWith_splitOn,
      List.append_assoc]
    rfl

theorem toList_joinStrings (sep : String) (ps : List (List Char)) :
    (joinStrings sep (ps.map String.ofList)).toList = joinWith sep.toList ps := by
  rw [joinStrings, String.toList_ofList, List.map_map]
  congr 1
  simp [Function.comp_def]

/-! ## Cutting at the last separator -/

/-- A text is cut at its last separator, if it has one. -/
theorem splitLast_cases (sep : Char) (s : List Char) :
    (splitLast sep s = none ∧ sep ∉ s) ∨
    ∃ before after, splitLast sep s = some (before, after) ∧ s = before ++ sep :: after ∧
      sep ∉ after := by
  induction s with
  | nil => exact Or.inl ⟨rfl, List.not_mem_nil⟩
  | cons c s ih =>
    rw [splitLast]
    rcases ih with ⟨hnone, hfree⟩ | ⟨before, after, hsome, hs, hfree⟩
    · rw [hnone]
      by_cases hc : c = sep
      · exact Or.inr ⟨[], s, if_pos hc, by rw [hc]; rfl, hfree⟩
      · refine Or.inl ⟨if_neg hc, ?_⟩
        rw [List.mem_cons, not_or]
        exact ⟨Ne.symm hc, hfree⟩
    · rw [hsome]
      exact Or.inr ⟨c :: before, after, rfl, by rw [hs]; rfl, hfree⟩

theorem eq_append_of_splitLast {sep : Char} {s before after : List Char}
    (h : splitLast sep s = some (before, after)) : s = before ++ sep :: after := by
  rcases splitLast_cases sep s with ⟨hnone, -⟩ | ⟨before', after', hsome, hs, -⟩
  · rw [h] at hnone
    cases hnone
  · rw [h] at hsome
    cases hsome
    exact hs

theorem splitLast_of_not_mem {sep : Char} {s : List Char} (h : sep ∉ s) :
    splitLast sep s = none := by
  rcases splitLast_cases sep s with ⟨hnone, -⟩ | ⟨before, after, -, hs, -⟩
  · exact hnone
  · rw [hs] at h
    exact absurd (List.mem_append_right _ List.mem_cons_self) h

end ApiPages.Text
