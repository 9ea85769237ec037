import ApiPages.Proofs.Paths

/-!
# Navigation paths

A navigation path is a directory, each of whose segments ends in a slash, and a leaf, whose segments
have dots between them: slashes stand in the place of the first dots of the path. As long as the
path has no slash of its own, nothing is lost. Putting the dots back gives the path, and the kind of
the symbol tells how many slashes there are.

Results:

* `toList_navigationPath`: the directory and the leaf of a navigation path.
* `dotted_navigationPath`: a navigation path with its slashes turned into dots is the path.
* `navigationPath_eq_iff`: the navigation path is the one text with these dots that has a slash for
  every segment in front of the leaf, and all of them in front of its first dot.
* `navigationPath_inj`: symbols with different paths have different navigation paths, whatever kinds
  they are of.
* `navigationPath_keeps_path`: what a navigation path keeps, for all kinds and paths.
-/

namespace ApiPages

/-- A dot in the place of a slash. -/
def dotForSlash (c : Char) : Char := if c = '/' then '.' else c

/-- The text with dots in the place of its slashes. -/
def dotted (s : String) : String := String.ofList (s.toList.map dotForSlash)

theorem map_dotForSlash {s : List Char} (h : '/' ∉ s) : s.map dotForSlash = s := by
  have hid : ∀ c ∈ s, dotForSlash c = c := by
    intro c hc
    have hne : c ≠ '/' := by
      rintro rfl
      exact h hc
    rw [dotForSlash, if_neg hne]
  rw [List.map_congr_left hid, List.map_id']

/-! ## Directory and leaf -/

/-- The segments of a path in front of its leaf. -/
def leadingSegments (kind : SymbolKind) (path : String) : List (List Char) :=
  let segments := Text.splitOn '.' path.toList
  segments.take (segments.length - kind.leafSegments)

/-- The segments of a path that stay together. -/
def lastSegments (kind : SymbolKind) (path : String) : List (List Char) :=
  let segments := Text.splitOn '.' path.toList
  segments.drop (segments.length - kind.leafSegments)

/-- The directory of a navigation path: each leading segment has a slash behind it. -/
def navigationDirectory (kind : SymbolKind) (path : String) : List Char :=
  (leadingSegments kind path).flatMap fun p => p ++ ['/']

/-- The leaf of a navigation path: the last segments have dots between them. -/
def navigationLeaf (kind : SymbolKind) (path : String) : List Char :=
  Text.joinWith ['.'] (lastSegments kind path)

variable {kind : SymbolKind} {path : String}

theorem length_leadingSegments :
    (leadingSegments kind path).length =
      (DottedPath.segments path).length - kind.leafSegments := by
  rw [leadingSegments, List.length_take, DottedPath.segments, Text.splitString, List.length_map]
  exact Nat.min_eq_left (Nat.sub_le _ _)

theorem dot_not_mem_of_mem_leadingSegments {p : List Char} (hp : p ∈ leadingSegments kind path) :
    '.' ∉ p :=
  Text.sep_not_mem_of_mem_splitOn (List.mem_of_mem_take hp)

theorem slash_not_mem_of_mem_leadingSegments (h : '/' ∉ path.toList) {p : List Char}
    (hp : p ∈ leadingSegments kind path) : '/' ∉ p :=
  fun hmem => h (Text.mem_of_mem_splitOn (List.mem_of_mem_take hp) hmem)

theorem lastSegments_ne_nil : lastSegments kind path ≠ [] := by
  have hleaf : 1 ≤ kind.leafSegments := by cases kind <;> decide
  have hlength := List.length_pos_iff.mpr (Text.splitOn_ne_nil '.' path.toList)
  rw [lastSegments, ne_eq, List.drop_eq_nil_iff]
  omega

/-- The navigation path is the directory and then the leaf. -/
theorem toList_navigationPath :
    (navigationPath kind path).toList =
      navigationDirectory kind path ++ navigationLeaf kind path := by
  simp only [navigationPath, navigationDirectory, navigationLeaf, leadingSegments, lastSegments,
    DottedPath.segments, Text.splitString, List.length_map]
  generalize (Text.splitOn '.' path.toList).length - kind.leafSegments = cut
  split
  · next hcut =>
    rw [hcut, List.drop_zero, Text.toList_joinStrings]
    rfl
  · next hcut =>
    have htake : (Text.splitOn '.' path.toList).take cut ≠ [] := by
      rw [ne_eq, List.take_eq_nil_iff, not_or]
      exact ⟨hcut, Text.splitOn_ne_nil _ _⟩
    rw [← List.map_take, ← List.map_drop, String.toList_append, String.toList_append,
      Text.toList_joinStrings, Text.toList_joinStrings, ← Text.joinWith_append_sep htake]
    rfl

/-- The path has the same leaf, and dots behind its leading segments. -/
theorem toList_eq_append_navigationLeaf (kind : SymbolKind) (path : String) :
    path.toList =
      ((leadingSegments kind path).flatMap fun p => p ++ ['.']) ++ navigationLeaf kind path := by
  rw [navigationLeaf, Text.flatMap_append_joinWith _ lastSegments_ne_nil, leadingSegments,
    lastSegments, List.take_append_drop, Text.joinWith_splitOn]

theorem slash_not_mem_navigationLeaf (h : '/' ∉ path.toList) : '/' ∉ navigationLeaf kind path := by
  intro hmem
  rw [toList_eq_append_navigationLeaf kind path] at h
  exact h (List.mem_append_right _ hmem)

theorem dot_not_mem_navigationDirectory : '.' ∉ navigationDirectory kind path := by
  intro hmem
  obtain ⟨p, hp, hmem⟩ := List.mem_flatMap.mp hmem
  rcases List.mem_append.mp hmem with hmem | hmem
  · exact dot_not_mem_of_mem_leadingSegments hp hmem
  · exact absurd (List.mem_singleton.mp hmem) (by decide)

/-! ## What is kept -/

/-- Putting the dots back gives the path. -/
theorem dotted_navigationPath {path : String} (h : '/' ∉ path.toList) (kind : SymbolKind) :
    dotted (navigationPath kind path) = path := by
  have hdirectory : (navigationDirectory kind path).map dotForSlash =
      (leadingSegments kind path).flatMap fun p => p ++ ['.'] := by
    rw [navigationDirectory, List.map_flatMap]
    refine List.flatMap_congr fun p hp => ?_
    rw [List.map_append, map_dotForSlash (slash_not_mem_of_mem_leadingSegments h hp)]
    rfl
  rw [dotted, ← String.toList_inj, String.toList_ofList, toList_navigationPath, List.map_append,
    hdirectory, map_dotForSlash (slash_not_mem_navigationLeaf h),
    ← toList_eq_append_navigationLeaf]

/-- There is a slash for every segment in front of the leaf. -/
theorem count_navigationPath (h : '/' ∉ path.toList) :
    (navigationPath kind path).toList.count '/' =
      (DottedPath.segments path).length - kind.leafSegments := by
  rw [toList_navigationPath, List.count_append, navigationDirectory,
    Text.count_flatMap_sep fun p hp => slash_not_mem_of_mem_leadingSegments h hp,
    length_leadingSegments, List.count_eq_zero.mpr (slash_not_mem_navigationLeaf h), Nat.add_zero]

/-- Every slash of the text stands in front of its first dot. -/
def SlashesFirst (s : List Char) : Prop := '/' ∉ s.dropWhile (· ≠ '.')

theorem slashesFirst_navigationPath (h : '/' ∉ path.toList) :
    SlashesFirst (navigationPath kind path).toList := by
  have hdirectory : ∀ c ∈ navigationDirectory kind path, decide (c ≠ '.') = true := by
    intro c hc
    rw [decide_eq_true_eq]
    rintro rfl
    exact dot_not_mem_navigationDirectory hc
  rw [SlashesFirst, toList_navigationPath, List.dropWhile_append_of_pos hdirectory]
  intro hmem
  exact slash_not_mem_navigationLeaf h ((List.dropWhile_sublist _).subset hmem)

theorem slashesFirst_dot_cons {s : List Char} : SlashesFirst ('.' :: s) ↔ '/' ∉ s := by
  simp [SlashesFirst]

theorem SlashesFirst.of_cons {c : Char} {s : List Char} (h : SlashesFirst (c :: s)) :
    SlashesFirst s := by
  by_cases hc : c = '.'
  · subst hc
    exact fun hmem => slashesFirst_dot_cons.mp h ((List.dropWhile_sublist _).subset hmem)
  · rwa [SlashesFirst, List.dropWhile_cons_of_pos (by simpa using hc)] at h

/-- Where a slash takes the place of a dot, there is one slash too many: behind the dot are none. -/
theorem count_ne_of_slash_dot {s t : List Char} (ht : SlashesFirst ('.' :: t)) :
    ('/' :: s).count '/' ≠ ('.' :: t).count '/' := by
  rw [List.count_cons_self, List.count_cons_of_ne (by decide),
    List.count_eq_zero.mpr (slashesFirst_dot_cons.mp ht)]
  exact Nat.succ_ne_zero _

theorem dotForSlash_eq_iff {c d : Char} :
    dotForSlash c = dotForSlash d ↔ c = d ∨ c = '/' ∧ d = '.' ∨ c = '.' ∧ d = '/' := by
  unfold dotForSlash
  split <;> split <;> grind

/-- Texts with the same dots and the same number of slashes are the same, if slashes come first. -/
theorem SlashesFirst.eq_of_map_dotForSlash {s t : List Char} (hs : SlashesFirst s)
    (ht : SlashesFirst t) (hdots : s.map dotForSlash = t.map dotForSlash)
    (hcount : s.count '/' = t.count '/') : s = t := by
  induction s generalizing t with
  | nil => exact (List.map_eq_nil_iff.mp hdots.symm).symm
  | cons c s ih =>
    cases t with
    | nil => cases hdots
    | cons d t =>
      obtain ⟨hhead, htail⟩ := List.cons.inj hdots
      rcases dotForSlash_eq_iff.mp hhead with rfl | ⟨rfl, rfl⟩ | ⟨rfl, rfl⟩
      · rw [List.count_cons, List.count_cons, Nat.add_right_cancel_iff] at hcount
        rw [ih hs.of_cons ht.of_cons htail hcount]
      · exact absurd hcount (count_ne_of_slash_dot ht)
      · exact absurd hcount.symm (count_ne_of_slash_dot hs)

/-- The dots, the number of the slashes and their place make up the navigation path. -/
theorem navigationPath_eq_iff (h : '/' ∉ path.toList) {s : String} :
    navigationPath kind path = s ↔
      dotted s = path ∧
        s.toList.count '/' = (DottedPath.segments path).length - kind.leafSegments ∧
        SlashesFirst s.toList := by
  constructor
  · rintro rfl
    exact ⟨dotted_navigationPath h kind, count_navigationPath h, slashesFirst_navigationPath h⟩
  · rintro ⟨hdots, hcount, hfirst⟩
    rw [← String.toList_inj]
    refine (slashesFirst_navigationPath h).eq_of_map_dotForSlash hfirst ?_ ?_
    · have hsame := (dotted_navigationPath h kind).trans hdots.symm
      rwa [dotted, dotted, String.ofList_inj] at hsame
    · rw [count_navigationPath h, hcount]

/-- Different paths have different navigation paths. -/
theorem navigationPath_inj {k l : SymbolKind} {p q : String} (hp : '/' ∉ p.toList)
    (hq : '/' ∉ q.toList) (h : navigationPath k p = navigationPath l q) : p = q := by
  rw [← dotted_navigationPath hp k, h, dotted_navigationPath hq l]

/-- Navigation paths lose no information: the dots can be put back, the slashes are as many as there
are segments in front of the leaf and stand in front of the first dot, and no two paths share a
navigation path, whatever kinds they are of. -/
theorem navigationPath_keeps_path (k : SymbolKind) {p : String} (hp : '/' ∉ p.toList) :
    dotted (navigationPath k p) = p ∧
      (navigationPath k p).toList.count '/' =
        (DottedPath.segments p).length - k.leafSegments ∧
      SlashesFirst (navigationPath k p).toList ∧
      ∀ (l : SymbolKind) (q : String), '/' ∉ q.toList →
        navigationPath k p = navigationPath l q → p = q := by
  obtain ⟨hdots, hcount, hfirst⟩ := (navigationPath_eq_iff hp).mp (rfl : navigationPath k p = _)
  refine ⟨hdots, hcount, hfirst, ?_⟩
  intro l q hq hsame
  exact navigationPath_inj hp hq hsame

/-- An empty segment is kept: the navigation path is that of a function with this path, too, but not
that of the path without the segment. -/
theorem emptySegment_kept :
    '/' ∉ "a..run".toList ∧ navigationPath .classType "a..run" = "a/.run" ∧
      dotted (navigationPath .classType "a..run") = "a..run" ∧
      (navigationPath .classType "a..run").toList.count '/' = 1 ∧
      SlashesFirst (navigationPath .classType "a..run").toList ∧
      (∃ q, '/' ∉ q.toList ∧ navigationPath .classType "a..run" = navigationPath .function q ∧
        "a..run" = q) ∧
      navigationPath .classType "a..run" ≠ navigationPath .module "a.run" := by
  have hslash : '/' ∉ "a..run".toList := by decide
  have hcut : (DottedPath.segments "a..run").length - SymbolKind.classType.leafSegments = 1 := by
    decide
  have hfunction : navigationPath .classType "a..run" = navigationPath .function "a..run" := by
    decide
  obtain ⟨hdots, hcount, hfirst, hinj⟩ := navigationPath_keeps_path .classType hslash
  rw [hcut] at hcount
  refine ⟨hslash, by decide, hdots, hcount, hfirst, ⟨"a..run", hslash, hfunction, ?_⟩, ?_⟩
  · exact hinj .function "a..run" hslash hfunction
  · intro hsame
    exact absurd (hinj .module "a.run" (by decide) hsame) (by decide)

end ApiPages
