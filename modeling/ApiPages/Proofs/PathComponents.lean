import ApiPages.Proofs.LineLaws
import ApiPages.Proofs.SplitLaws
import ApiPages.UnixPath
import Mathlib.Data.List.Basic

/-!
# Components of file paths

The meaning of a file path is the list of its components. Pushing a relative path adds the
components of that path at the end. Setting the extension changes the last component, and only that
one.

Results:

* `UnixPath.components_push`: a relative path without dots adds its names to a path.
* `UnixPath.fileName_eq_some_iff`: the file name is the last component, if that is a name.
* `UnixPath.components_setExtension`: the components of a path with another extension.
-/

namespace ApiPages

theorem Text.filter_dropEndWhile {α : Type} (p : α → Bool) (s : List α) :
    (dropEndWhile p s).filter (fun x => !p x) = s.filter fun x => !p x := by
  have hdrop : ∀ t : List α, (t.dropWhile p).filter (fun x => !p x) = t.filter fun x => !p x := by
    intro t
    induction t with
    | nil => rfl
    | cons x t ih =>
      rw [List.dropWhile_cons]
      split
      · next h => rw [ih, List.filter_cons_of_neg (by simp [h])]
      · rfl
  rw [dropEndWhile, List.filter_reverse, hdrop, List.filter_reverse, List.reverse_reverse]

namespace UnixPath

/-! ## Segments -/

/-- The components of the segments that count. -/
def named (ss : List (List Char)) : List Component := (ss.filter fun s => !isIdle s).map ofSegment

/-- The components of the segments of a path. -/
def spell (absolute : Bool) (ss : List (List Char)) : List Component :=
  if absolute then .root :: named ss
  else
    match ss with
    | [] => []
    | first :: rest => (if first = [] then [] else [ofSegment first]) ++ named rest

theorem components_eq (path : String) :
    components path = spell (isAbsolute path) (segments path) := rfl

theorem named_cons (p : List Char) (ss : List (List Char)) :
    named (p :: ss) = if isIdle p then named ss else ofSegment p :: named ss := by
  cases h : isIdle p <;> simp [named, h]

@[simp] theorem named_append (ss ts : List (List Char)) :
    named (ss ++ ts) = named ss ++ named ts := by
  simp [named]

theorem spell_append {absolute : Bool} {ss : List (List Char)} (h : ss ≠ [])
    (ts : List (List Char)) : spell absolute (ss ++ ts) = spell absolute ss ++ named ts := by
  cases absolute with
  | true => simp [spell]
  | false =>
    obtain ⟨first, rest, rfl⟩ := List.exists_cons_of_ne_nil h
    simp [spell]

theorem segments_slash (s : List Char) :
    segments (String.ofList ('/' :: s)) = Text.splitOn '/' s := by
  simp [segments]

theorem segments_of_not_isAbsolute {path : String} (h : isAbsolute path = false) :
    segments path = Text.splitOn '/' path.toList := by
  unfold segments
  split
  · next s heq => simp [isAbsolute, heq] at h
  · rfl

/-! ## Pushing -/

theorem components_slash (s : List Char) :
    components (String.ofList ('/' :: s)) = .root :: named (Text.splitOn '/' s) := by
  have habsolute : isAbsolute (String.ofList ('/' :: s)) = true := by simp [isAbsolute]
  rw [components_eq, segments_slash, habsolute]
  rfl

/-- What comes after a slash adds its components. -/
theorem components_append_slash {q : List Char} (hq : q ≠ []) (s : List Char) :
    components (String.ofList (q ++ '/' :: s)) =
      components (String.ofList q) ++ named (Text.splitOn '/' s) := by
  obtain ⟨c, q, rfl⟩ := List.exists_cons_of_ne_nil hq
  by_cases hc : c = '/'
  · subst hc
    rw [List.cons_append, components_slash, components_slash, Text.splitOn_append, named_append]
    rfl
  · have hrelative : ∀ t, isAbsolute (String.ofList (c :: t)) = false := by
      intro t
      simp [isAbsolute, hc]
    rw [components_eq, components_eq, List.cons_append, hrelative, hrelative,
      segments_of_not_isAbsolute (hrelative _), segments_of_not_isAbsolute (hrelative _),
      String.toList_ofList, String.toList_ofList, ← List.cons_append, Text.splitOn_append,
      spell_append (Text.splitOn_ne_nil _ _)]

/-- The names in a path without dots. -/
def names (path : String) : List (List Char) := (Text.splitOn '/' path.toList).filter (· ≠ [])

theorem named_splitOn {path : String} (hdot : '.' ∉ path.toList) :
    named (Text.splitOn '/' path.toList) = (names path).map .normal := by
  have hpiece : ∀ p ∈ Text.splitOn '/' path.toList, '.' ∉ p := by
    intro p hp hmem
    exact hdot (Text.mem_of_mem_splitOn hp hmem)
  have hfilter : (Text.splitOn '/' path.toList).filter (fun s => !isIdle s) = names path := by
    apply List.filter_congr
    intro p hp
    have hne : p ≠ ['.'] := by
      rintro rfl
      exact hpiece _ hp List.mem_cons_self
    rw [isIdle, beq_eq_false_iff_ne.mpr hne, Bool.or_false]
    cases p <;> rfl
  rw [named, hfilter]
  apply List.map_congr_left
  intro p hp
  have hp := hpiece p (List.mem_filter.mp hp).1
  rw [ofSegment, if_neg, if_neg] <;> rintro rfl <;> exact hp List.mem_cons_self

theorem components_of_dot_not_mem {path : String} (h : isAbsolute path = false)
    (hdot : '.' ∉ path.toList) : components path = (names path).map .normal := by
  rw [components_eq, h, segments_of_not_isAbsolute h, ← named_splitOn hdot]
  obtain ⟨first, rest, hsplit⟩ :=
    List.exists_cons_of_ne_nil (Text.splitOn_ne_nil '/' path.toList)
  have hfirst : first ≠ ['.'] := by
    rintro rfl
    exact hdot (Text.mem_of_mem_splitOn (by rw [hsplit]; exact List.mem_cons_self)
      List.mem_cons_self)
  rw [hsplit]
  by_cases hnil : first = [] <;> simp [spell, named, isIdle, hnil, hfirst]

/-- A relative path without dots adds its names. -/
theorem components_push (path : String) {extra : String} (h : isAbsolute extra = false)
    (hdot : '.' ∉ extra.toList) :
    components (push path extra) = components path ++ (names extra).map .normal := by
  rw [push, if_neg (by simp [h])]
  by_cases hempty : path = ""
  · subst hempty
    have hnone : components "" = [] := by decide
    simpa [hnone] using components_of_dot_not_mem h hdot
  have hne : path.toList ≠ [] := by simpa using hempty
  rw [← named_splitOn hdot]
  split
  · -- the slash in front of what is pushed is there already
    next hlast =>
    have hslash : path.toList.getLast? = some '/' := by simpa [hempty] using hlast
    obtain ⟨q, hq⟩ := List.getLast?_eq_some_iff.mp hslash
    obtain rfl : path = String.ofList (q ++ ['/']) := by rw [← hq, String.ofList_toList]
    have happend : String.ofList (q ++ ['/']) ++ extra =
        String.ofList (q ++ '/' :: extra.toList) := by
      simp [← String.toList_inj]
    rw [happend]
    by_cases hnil : q = []
    · subst hnil
      rw [List.nil_append, List.nil_append, components_slash, components_slash]
      rfl
    · rw [components_append_slash hnil, components_append_slash hnil]
      simp [Text.splitOn, named, isIdle]
  · have happend : path ++ "/" ++ extra = String.ofList (path.toList ++ '/' :: extra.toList) := by
      simp [← String.toList_inj]
    rw [happend, components_append_slash hne, String.ofList_toList]

/-! ## Extensions -/

theorem components_ofSegments {absolute : Bool} {ss : List (List Char)} (hne : ss ≠ [])
    (hslash : ∀ s ∈ ss, '/' ∉ s) (hfirst : absolute = false → ss.head? ≠ some []) :
    components (ofSegments absolute ss) = spell absolute ss := by
  cases absolute with
  | true =>
    have htext : ofSegments true ss = String.ofList ('/' :: Text.joinWith ['/'] ss) := rfl
    rw [htext, components_slash, Text.splitOn_joinWith hne hslash]
    rfl
  | false =>
    have htext : ofSegments false ss = String.ofList (Text.joinWith ['/'] ss) := rfl
    have hrelative : isAbsolute (ofSegments false ss) = false := by
      obtain ⟨first, rest, rfl⟩ := List.exists_cons_of_ne_nil hne
      have hfirst : first ≠ [] := fun h => hfirst rfl (by rw [h]; rfl)
      obtain ⟨c, s, rfl⟩ := List.exists_cons_of_ne_nil hfirst
      obtain ⟨t, ht⟩ := Text.exists_joinWith_eq_cons ['/'] c s rest
      have hc : c ≠ '/' := fun h => hslash _ List.mem_cons_self (h ▸ List.mem_cons_self)
      simp [htext, isAbsolute, ht, hc]
    rw [components_eq, segments_of_not_isAbsolute hrelative, hrelative, htext,
      String.toList_ofList, Text.splitOn_joinWith hne hslash]

theorem spell_append_singleton (absolute : Bool) (ss : List (List Char)) {s : List Char}
    (h : isIdle s = false) : spell absolute (ss ++ [s]) = spell absolute ss ++ [ofSegment s] := by
  by_cases hss : ss = []
  · subst hss
    have hnil : s ≠ [] := by
      rintro rfl
      cases h
    cases absolute <;> simp [spell, named, h, hnil]
  · rw [spell_append hss]
    simp [named, h]

theorem slash_not_mem_of_mem_segments {path : String} {s : List Char} (h : s ∈ segments path) :
    '/' ∉ s := by
  unfold segments at h
  split at h <;> exact Text.sep_not_mem_of_mem_splitOn h

/-- Only the empty path is relative and starts with an empty segment. -/
theorem eq_nil_of_segments {path : String} (h : isAbsolute path = false) {rest : List (List Char)}
    (hsegments : segments path = [] :: rest) : rest = [] := by
  rw [segments_of_not_isAbsolute h] at hsegments
  rw [isAbsolute] at h
  cases hpath : path.toList with
  | nil =>
    rw [hpath, Text.splitOn] at hsegments
    exact (List.cons.inj hsegments).2.symm
  | cons c s =>
    have hc : c ≠ '/' := by simpa [hpath] using h
    rw [hpath, Text.splitOn, if_neg hc] at hsegments
    cases hs : Text.splitOn '/' s <;> rw [hs] at hsegments <;> cases hsegments

/-- What is dropped at the end of a path has no component. -/
theorem spell_significant (path : String) :
    spell (isAbsolute path) (significant path) = components path := by
  have hnamed : ∀ ss, named (Text.dropEndWhile isIdle ss) = named ss := by
    intro ss
    rw [named, named, Text.filter_dropEndWhile]
  rw [components_eq, significant]
  cases habsolute : isAbsolute path with
  | true => simp [spell, hnamed]
  | false =>
    cases hsegments : segments path with
    | nil => rfl
    | cons first rest =>
      by_cases h : first = []
      · subst h
        simp [spell, named, eq_nil_of_segments habsolute hsegments]
      · simp [spell, hnamed, h]

/-- A path has nothing that counts, or it is the current directory, or it ends with a segment that
counts. -/
theorem significant_cases (path : String) :
    significant path = [] ∨ (isAbsolute path = false ∧ significant path = [['.']]) ∨
      ∃ init last, significant path = init ++ [last] ∧ isIdle last = false ∧
        (isAbsolute path = false → (significant path).head? ≠ some []) := by
  have hend : ∀ (front : List (List Char)) (ss : List (List Char)),
      Text.dropEndWhile isIdle ss ≠ [] → ∃ init last,
        front ++ Text.dropEndWhile isIdle ss = init ++ [last] ∧ isIdle last = false := by
    intro front ss hne
    obtain ⟨init, last, hlast⟩ := (List.eq_nil_or_concat' _).resolve_left hne
    refine ⟨front ++ init, last, by rw [hlast, List.append_assoc], ?_⟩
    exact Text.getLast?_dropEndWhile isIdle ss last (by rw [hlast]; simp)
  rw [significant]
  cases habsolute : isAbsolute path with
  | true =>
    by_cases hne : Text.dropEndWhile isIdle (segments path) = []
    · exact Or.inl hne
    · obtain ⟨init, last, hlast, hidle⟩ := hend [] _ hne
      exact Or.inr (Or.inr ⟨init, last, hlast, hidle, by simp⟩)
  | false =>
    cases hsegments : segments path with
    | nil => exact Or.inl rfl
    | cons first rest =>
      by_cases hfirst : first = []
      · exact Or.inl (by simp [hfirst])
      right
      by_cases hne : Text.dropEndWhile isIdle rest = []
      · by_cases hdot : first = ['.']
        · exact Or.inl ⟨rfl, by simp [hne, hdot]⟩
        · exact Or.inr ⟨[], first, by simp [hne, hfirst], by simp [isIdle, hfirst, hdot],
            by simp [hfirst]⟩
      · obtain ⟨init, last, hlast, hidle⟩ := hend [first] rest hne
        exact Or.inr ⟨init, last, by simpa [hfirst] using hlast, hidle, by simp [hfirst]⟩

theorem mem_segments_of_mem_significant {path : String} {s : List Char} (h : s ∈ significant path) :
    s ∈ segments path := by
  have hdrop : ∀ ss, s ∈ Text.dropEndWhile isIdle ss → s ∈ ss := by
    intro ss hs
    rw [Text.dropEndWhile, List.mem_reverse] at hs
    exact List.mem_reverse.mp ((List.dropWhile_suffix _).subset hs)
  unfold significant at h
  split at h
  · exact hdrop _ h
  · split at h
    · cases h
    · next first rest heq =>
      split at h
      · cases h
      · rw [heq]
        exact (List.mem_cons.mp h).elim (fun h => h ▸ List.mem_cons_self)
          fun h => List.mem_cons_of_mem _ (hdrop _ h)

/-- The file name is the last component, if that is a name. -/
theorem fileName_eq_some_iff {path : String} {name : List Char} :
    fileName path = some name ↔ (components path).getLast? = some (.normal name) := by
  rw [← spell_significant]
  rcases significant_cases path with hnil | ⟨habsolute, hdot⟩ | ⟨init, last, hlast, hidle, -⟩
  · rw [fileName, hnil]
    cases isAbsolute path <;> simp [spell, named]
  · rw [fileName, hdot, habsolute]
    simp [spell, named, ofSegment]
  · have hdot : last ≠ ['.'] := by
      rintro rfl
      cases hidle
    rw [fileName, hlast, spell_append_singleton _ _ hidle]
    by_cases hparent : last = ['.', '.'] <;> simp [ofSegment, hdot, hparent]

theorem mem_of_mem_stem {name : List Char} {c : Char} (h : c ∈ stem name) : c ∈ name := by
  unfold stem at h
  split at h
  · exact h
  · next before after _ hsplit =>
    rw [Text.eq_append_of_splitLast hsplit]
    exact List.mem_append_left _ h
  · exact h

/-- A file name with an extension counts as a name. -/
theorem isIdle_append_extension (name : List Char) {ext : String} (hext : ext ≠ "") :
    isIdle (name ++ '.' :: ext.toList) = false := by
  have hne : ext.toList ≠ [] := by simpa using hext
  cases name <;> simp [isIdle, hne]

theorem ofSegment_append_extension (name : List Char) {ext : String} (hext : ext ≠ "")
    (hdot : '.' ∉ ext.toList) :
    ofSegment (name ++ '.' :: ext.toList) = .normal (name ++ '.' :: ext.toList) := by
  have hne : ext.toList ≠ [] := by simpa using hext
  have hsingle : ext.toList ≠ ['.'] := by
    intro h
    exact hdot (by simp [h])
  rcases name with _ | ⟨a, _ | ⟨b, name⟩⟩ <;> simp [ofSegment, hne, hsingle]

/-- Another extension changes the last component and nothing else. -/
theorem components_setExtension {path : String} {name : List Char} (ext : String)
    (h : fileName path = some name) (hslash : '/' ∉ ext.toList) (hdot : '.' ∉ ext.toList)
    (hext : ext ≠ "") :
    ∃ cs, components path = cs ++ [.normal name] ∧
      components (setExtension path ext) = cs ++ [.normal (stem name ++ '.' :: ext.toList)] := by
  rcases significant_cases path with hnil | ⟨-, hcurrent⟩ | ⟨init, last, hlast, hidle, hfirst⟩
  · simp [fileName, hnil] at h
  · simp [fileName, hcurrent] at h
  · have hmem : ∀ s ∈ init ++ [last], '/' ∉ s := by
      intro s hs
      exact slash_not_mem_of_mem_segments (mem_segments_of_mem_significant (hlast ▸ hs))
    obtain ⟨⟨hcurrent, hparent⟩, rfl⟩ : (last ≠ ['.'] ∧ last ≠ ['.', '.']) ∧ last = name := by
      simpa [fileName, hlast] using h
    refine ⟨spell (isAbsolute path) init, ?_, ?_⟩
    · rw [← spell_significant, hlast, spell_append_singleton _ _ hidle, ofSegment,
        if_neg hcurrent, if_neg hparent]
    · simp only [setExtension, h, hlast, List.dropLast_concat]
      rw [components_ofSegments (by simp), spell_append_singleton _ _
        (isIdle_append_extension _ hext), ofSegment_append_extension _ hext hdot]
      · intro s hs
        rcases List.mem_append.mp hs with hs | hs
        · exact hmem s (List.mem_append_left _ hs)
        · rw [List.mem_singleton.mp hs, List.mem_append, List.mem_cons]
          rintro (hc | hc | hc)
          · exact hmem last (by simp) (mem_of_mem_stem hc)
          · cases hc
          · exact hslash hc
      · intro habsolute
        have hhead := hfirst habsolute
        rw [hlast] at hhead
        cases init with
        | nil => simp
        | cons first init => simpa using hhead

end UnixPath

end ApiPages
