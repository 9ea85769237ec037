import ApiPages.Proofs.PagePaths
import ApiPages.Proofs.SymbolKeys

/-!
# Shorthands

A tag may name a symbol by the end of its path. The symbols that it may mean are found by comparing
texts: a path ends with another one if it is that path or goes on with it behind a dot. That is the
same as comparing segments, whatever dots the texts have at their ends or next to each other.

Results:

* `DottedPath.segments_suffix_iff`, `DottedPath.endsWith_iff`: the end of a path by segments.
* `DottedPath.IsCut.endsWith_iff`: the end of a path without its last segment.
* `Project.OfSnapshot.empty_not_mem_segments`: no key of a symbol table has an empty segment.
* `Project.candidates_by_segments`: the symbols that a shorthand may mean.
-/

namespace ApiPages

/-! ## Ends of paths -/

namespace DottedPath

theorem map_toList_segments (path : String) :
    (segments path).map String.toList = Text.splitOn '.' path.toList := by
  simp [segments, Text.splitString, Function.comp_def]

theorem segments_ne_nil (path : String) : segments path ≠ [] := by
  rw [segments, Text.splitString, ne_eq, List.map_eq_nil_iff]
  exact Text.splitOn_ne_nil '.' path.toList

/-- The segments of a path end with those of another exactly if it is that path or goes on with it
behind a dot. -/
theorem segments_suffix_iff {path suffix : String} :
    segments suffix <:+ segments path ↔ path = suffix ∨ ∃ top, path = child top suffix := by
  constructor
  · intro h
    have hsplit := h.map String.toList
    rw [map_toList_segments, map_toList_segments] at hsplit
    rcases Text.eq_or_exists_of_splitOn_suffix hsplit with heq | ⟨r, hr⟩
    · exact Or.inl (String.toList_inj.mp heq)
    · refine Or.inr ⟨String.ofList r, ?_⟩
      rw [← String.toList_inj, hr, toList_child, String.toList_ofList]
  · rintro (rfl | ⟨top, rfl⟩)
    · exact List.suffix_rfl
    · rw [segments_child]
      exact List.suffix_append _ _

/-- A path ends with a text exactly if its segments end with those of the text. -/
theorem endsWith_iff {path suffix : String} :
    endsWith path suffix = true ↔ suffix ≠ "" ∧ segments suffix <:+ segments path := by
  rw [endsWith, segments_suffix_iff]
  split
  · next hempty => simp [String.isEmpty_iff.mp hempty]
  · next hne =>
    rw [String.isEmpty_iff] at hne
    rw [Bool.or_eq_true, beq_iff_eq, ne_eq, and_iff_right hne]
    refine or_congr_right ?_
    constructor
    · intro h
      split at h
      · next rest hrest =>
        rw [Text.beforeEnd_eq_some_iff] at hrest
        obtain ⟨top, rfl⟩ := List.getLast?_eq_some_iff.mp (beq_iff_eq.mp h)
        refine ⟨String.ofList top, ?_⟩
        rw [← String.toList_inj, hrest, toList_child, String.toList_ofList, List.append_assoc]
        rfl
      · cases h
    · rintro ⟨top, rfl⟩
      have hrest : Text.beforeEnd suffix.toList (child top suffix).toList =
          some (top.toList ++ ['.']) := by
        rw [Text.beforeEnd_eq_some_iff, toList_child, List.append_assoc]
        rfl
      rw [hrest]
      simp

/-- The parts of a path before and behind its last dot. A path without a dot has nothing before its
last segment. -/
def IsCut (path parent leaf : String) : Prop :=
  '.' ∉ leaf.toList ∧ (path = child parent leaf ∨ parent = "" ∧ path = leaf)

theorem isCut_splitMember (path : String) :
    IsCut path (splitMember path).1 (splitMember path).2 := by
  rw [splitMember]
  rcases Text.splitLast_cases '.' path.toList with
    ⟨hnone, hdot⟩ | ⟨parent, leaf, hsome, hpath, hdot⟩
  · rw [hnone]
    exact ⟨hdot, Or.inr ⟨rfl, rfl⟩⟩
  · rw [hsome]
    refine ⟨by rwa [String.toList_ofList], Or.inl ?_⟩
    rw [← String.toList_inj, toList_child, String.toList_ofList, String.toList_ofList, hpath]

namespace IsCut

variable {path parent leaf : String}

theorem getLast?_segments (h : IsCut path parent leaf) : (segments path).getLast? = some leaf := by
  obtain ⟨hdot, rfl | ⟨rfl, rfl⟩⟩ := h
  · simp [segments_child, segments_of_dot_not_mem hdot]
  · simp [segments_of_dot_not_mem hdot]

/-- There is one way to cut a path. -/
theorem unique (h : IsCut path parent leaf) {parent' leaf' : String}
    (h' : IsCut path parent' leaf') : parent = parent' ∧ leaf = leaf' := by
  have hdotted : ∀ top name, '.' ∉ (child top name).toList → False := by
    intro top name hdot
    rw [toList_child] at hdot
    simp at hdot
  obtain ⟨hdot, rfl | ⟨rfl, rfl⟩⟩ := h <;> obtain ⟨hdot', hpath | ⟨rfl, rfl⟩⟩ := h'
  · exact child_inj hdot hdot' hpath
  · exact (hdotted _ _ hdot').elim
  · exact (hdotted _ _ (hpath ▸ hdot)).elim
  · exact ⟨rfl, rfl⟩

theorem splitMember_eq (h : IsCut path parent leaf) : splitMember path = (parent, leaf) := by
  obtain ⟨hparent, hleaf⟩ := h.unique (isCut_splitMember path)
  rw [hparent, hleaf]

/-- What a path without its last segment ends with. -/
theorem endsWith_iff (h : IsCut path parent leaf) {suffix : String} (hne : suffix ≠ "") :
    endsWith parent suffix = true ↔ segments suffix <:+ (segments path).dropLast := by
  rw [DottedPath.endsWith_iff, and_iff_right hne]
  obtain ⟨hdot, rfl | ⟨rfl, rfl⟩⟩ := h
  · rw [segments_child, segments_of_dot_not_mem hdot, List.dropLast_concat]
  · rw [segments_of_dot_not_mem hdot, List.dropLast_singleton, List.suffix_nil]
    simp only [segments_ne_nil, iff_false, segments_suffix_iff]
    rintro (hempty | ⟨top, hempty⟩)
    · exact hne hempty.symm
    · have := congrArg String.toList hempty
      rw [toList_child] at this
      simp at this

end IsCut

end DottedPath

open DottedPath (segments)

/-! ## Keys of the symbol table -/

namespace Snapshot

variable {s : Snapshot}

theorem empty_not_mem_segments_path (hs : s.Sound) {n : Node} {k : Nat}
    (h : s.root.Below Node.isDeclaration k n) : "" ∉ segments n.path := by
  have hname : ∀ c ∈ s.nodes, c.isReexport = false → "" ∉ segments c.name := by
    intro c hc hre
    rw [DottedPath.segments_of_dot_not_mem (hs.dot_not_mem_name hc hre), List.mem_singleton]
    exact (hs.name_ne_empty hc).symm
  induction h with
  | self =>
    rw [hs.root_path]
    exact hname s.root s.root_mem_nodes (Documents.root.isReexport_eq_false hs)
  | @step k p c hp hc hkeep ih =>
    rw [hs.child_path p hp.mem_preorder c hc, DottedPath.segments_child, List.mem_append, not_or]
    have hmem : c ∈ s.nodes := child_mem_nodes hp.mem_preorder hc
    exact ⟨ih, hname c hmem (by simpa [Node.isDeclaration] using hkeep)⟩

/-- No key of the symbol table has an empty segment. -/
theorem empty_not_mem_segments_key (hs : s.Sound) {x : Node × SymbolKind} (hx : x ∈ s.symbols) :
    "" ∉ segments (DottedPath.relativeTo s.rootName x.1.path) := by
  obtain ⟨k, hbelow⟩ := exists_below_of_mem_symbols hx
  have hpath := empty_not_mem_segments_path hs hbelow
  rcases hs.path_cases (documents_of_mem_symbols hs hx).mem_nodes with hroot | ⟨rest, hrest⟩
  · rwa [hroot, hs.root_path, DottedPath.relativeTo_self, ← hs.root_path, ← hroot]
  · rw [hrest, DottedPath.segments_child] at hpath
    rw [hrest, DottedPath.relativeTo_child]
    exact fun hmem => hpath (List.mem_append_right _ hmem)

end Snapshot

/-! ## Candidates -/

namespace Project

/-- The project is that of a snapshot that was loaded. -/
def OfSnapshot (p : Project) : Prop :=
  ∃ d s settings findings,
    Snapshot.load d = .ok s ∧ Project.build s settings = .ok ⟨p, findings⟩

theorem OfSnapshot.empty_not_mem_segments {p : Project} (h : p.OfSnapshot) {key : String}
    {r : SymbolRef} (hkey : p.symbols.get? key = some r) : "" ∉ segments key := by
  obtain ⟨d, s, settings, findings, hload, hbuild⟩ := h
  have hs := Snapshot.Sound.of_load hload
  obtain ⟨v, hv, x, hx, rfl, -⟩ := ((built_of_build hbuild).1.get?_symbols_iff hs).mp hkey
  exact Snapshot.empty_not_mem_segments_key hs (List.mem_flatMap.mpr ⟨v, hv, hx⟩)

/-- There is a method or a property under the key. -/
def HasMember (p : Project) (key : String) : Prop :=
  ∃ r, p.symbols.get? key = some r ∧ (r.kind = .method ∨ r.kind = .property)

variable (p : Project) (kind : TagKind) (suffix : String)

theorem mem_candidates_iff {wanted : String}
    (hwanted : DottedPath.relativeTo p.rootName (Text.trimString suffix) = wanted) (key : String) :
    key ∈ p.candidates kind suffix ↔
      wanted ≠ "" ∧ ∃ r, p.symbols.get? key = some r ∧ fits kind wanted (key, r) = true := by
  rw [candidates]
  simp only [hwanted]
  split
  · next hempty => simp [String.isEmpty_iff.mp hempty]
  · next hne =>
    rw [String.isEmpty_iff] at hne
    simp only [List.mem_map, List.mem_filter, ne_eq, hne, not_false_eq_true, true_and]
    constructor
    · rintro ⟨⟨_, r⟩, ⟨he, hfits⟩, rfl⟩
      exact ⟨r, Dict.mem_entries_iff.mp he, hfits⟩
    · rintro ⟨r, hr, hfits⟩
      exact ⟨(key, r), ⟨Dict.mem_entries_iff.mpr hr, hfits⟩, rfl⟩

theorem candidates_pairwise : (p.candidates kind suffix).Pairwise (· < ·) := by
  rw [candidates]
  split
  · exact List.Pairwise.nil
  · exact List.pairwise_map.mpr (p.symbols.sorted.filter _)

variable {kind} in
/-- For a tag of a member, the parent of a shorthand counts if there is one, and otherwise its last
segment. -/
theorem fits_member_iff (hkind : kind.isMember = true) {wanted parent leaf : String}
    (hcut : DottedPath.splitMember wanted = (parent, leaf)) {e : String × SymbolRef} :
    fits kind wanted e = true ↔
      (e.2.kind = .method ∨ e.2.kind = .property) ∧
        (parent = "" ∧ (segments e.1).getLast? = some leaf ∨
          parent ≠ "" ∧ segments parent <:+ (segments e.1).dropLast) := by
  have hmember : e.2.kind.isMember = true ↔ e.2.kind = .method ∨ e.2.kind = .property := by
    cases e.2.kind <;> simp [SymbolKind.isMember]
  have hkey := DottedPath.isCut_splitMember e.1
  rw [fits, if_pos hkind, hcut, Bool.and_eq_true, hmember, hkey.getLast?_segments]
  refine and_congr_right fun _ => ?_
  by_cases hparent : parent = ""
  · simp [hparent]
  · have hempty : parent.isEmpty = false := by
      rw [Bool.eq_false_iff, ne_eq, String.isEmpty_iff]
      exact hparent
    simp [hparent, hempty, hkey.endsWith_iff hparent]

/-- The symbols that a shorthand may mean, in order, by the segments of their paths. For a tag of a
member, a shorthand with an empty parent is compared by its last segment only. No symbol of a
snapshot has an empty segment, so there that parent need not be excluded from the other case. -/
theorem candidates_by_segments (wanted : String)
    (hwanted : DottedPath.relativeTo p.rootName (Text.trimString suffix) = wanted) :
    (p.candidates kind suffix).Pairwise (· < ·) ∧
    (∀ key ∈ p.candidates kind suffix, key ∈ p.symbols.keys) ∧
    (kind.isMember = false → ∀ key, key ∈ p.candidates kind suffix ↔
      key ∈ p.symbols.keys ∧ wanted ≠ "" ∧ segments wanted <:+ segments key) ∧
    (kind.isMember = true → ∀ parent leaf, DottedPath.IsCut wanted parent leaf → ∀ key,
        (key ∈ p.candidates kind suffix ↔ p.HasMember key ∧ wanted ≠ "" ∧
          (parent = "" ∧ (segments key).getLast? = some leaf ∨
            parent ≠ "" ∧ segments parent <:+ (segments key).dropLast)) ∧
        (p.OfSnapshot → (key ∈ p.candidates kind suffix ↔ p.HasMember key ∧ wanted ≠ "" ∧
          (parent = "" ∧ (segments key).getLast? = some leaf ∨
            segments parent <:+ (segments key).dropLast)))) := by
  have hmem := p.mem_candidates_iff kind suffix hwanted
  refine ⟨p.candidates_pairwise kind suffix, ?_, ?_, ?_⟩
  · intro key hkey
    obtain ⟨-, r, hr, -⟩ := (hmem key).mp hkey
    rw [Dict.mem_keys_iff, hr]
    rfl
  · intro hkind key
    rw [hmem, Dict.mem_keys_iff, Option.isSome_iff_exists]
    simp only [fits, hkind, Bool.false_eq_true, if_false, DottedPath.endsWith_iff]
    constructor
    · rintro ⟨hne, r, hr, -, hsuffix⟩
      exact ⟨⟨r, hr⟩, hne, hsuffix⟩
    · rintro ⟨⟨r, hr⟩, hne, hsuffix⟩
      exact ⟨hne, r, hr, hne, hsuffix⟩
  · intro hkind parent leaf hcut key
    have hfits : key ∈ p.candidates kind suffix ↔ p.HasMember key ∧ wanted ≠ "" ∧
        (parent = "" ∧ (segments key).getLast? = some leaf ∨
          parent ≠ "" ∧ segments parent <:+ (segments key).dropLast) := by
      rw [hmem]
      constructor
      · rintro ⟨hne, r, hr, h⟩
        obtain ⟨hmember, h⟩ := (fits_member_iff hkind hcut.splitMember_eq).mp h
        exact ⟨⟨r, hr, hmember⟩, hne, h⟩
      · rintro ⟨⟨r, hr, hmember⟩, hne, h⟩
        exact ⟨hne, r, hr, (fits_member_iff hkind hcut.splitMember_eq).mpr ⟨hmember, h⟩⟩
    refine ⟨hfits, fun hp => hfits.trans (and_congr_right ?_)⟩
    rintro ⟨r, hr, -⟩
    refine and_congr_right fun _ => or_congr_right (and_iff_right_of_imp ?_)
    -- an empty parent would be an empty segment of the key
    intro hsuffix hparent
    rw [hparent] at hsuffix
    have hempty : "" ∈ segments "" := by simp [DottedPath.segments_of_dot_not_mem]
    exact hp.empty_not_mem_segments hr (List.dropLast_subset _ (hsuffix.subset hempty))

/-- The class is found by the end of its path and not by the end of its name. Its method is found by
the name of the class, whatever name follows. -/
theorem packageWithFile_shorthands :
    ∃ s project, Snapshot.load (SymbolTable.packageWithFile "core") = .ok s ∧
      Project.build s { Settings.standard with useStandardLinks := false } = .ok project ∧
      project.value.candidates .classType " p.core.X " = ["core.X"] ∧
      (∀ key, key ∈ project.value.candidates .classType " p.core.X " ↔
        key ∈ project.value.symbols.keys ∧ segments "core.X" <:+ segments key) ∧
      project.value.candidates .classType "ore.X" = [] ∧
      project.value.candidates .method "X.go" = ["core.X.run"] ∧
      ∀ key, key ∈ project.value.candidates .method "X.go" ↔
        project.value.HasMember key ∧ segments "X" <:+ (segments key).dropLast := by
  have hbuild : Project.build ⟨Node.ofDeclaration (SymbolTable.packageWithFile "core")⟩
      { Settings.standard with useStandardLinks := false } = .ok _ := rfl
  refine ⟨_, _, rfl, hbuild, by decide +kernel, ?_, by decide +kernel, by decide +kernel, ?_⟩
  · intro key
    refine ((candidates_by_segments _ .classType " p.core.X " "core.X"
      (by decide +kernel)).2.2.1 rfl key).trans ?_
    exact and_congr_right fun _ => and_iff_right (by decide)
  · intro key
    have hcut : DottedPath.IsCut "X.go" "X" "go" := ⟨by decide, Or.inl rfl⟩
    refine (((candidates_by_segments _ .method "X.go" "X.go"
      (by decide +kernel)).2.2.2 rfl "X" "go" hcut key).2
      ⟨SymbolTable.packageWithFile "core", _, _, _, rfl, hbuild⟩).trans ?_
    simp

end Project

end ApiPages
