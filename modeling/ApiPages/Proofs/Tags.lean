import ApiPages.Diagnostics.Basic
import ApiPages.Proofs.Paths
import ApiPages.Reference.CrossLink
import Mathlib.Data.List.TakeWhile

/-!
# Tags and what they are rendered as

A text is rendered by putting something in the place of each of its tags: a link, or the label of
the tag together with one finding.

Results:

* `Tag.kind?_eq_some_iff`: a tag is of a kind if its word is that of the kind.
* `Tag.linkKey_inj`: the name of an unresolved cross-link tells the tag and the symbol it is in.
* `Project.value_renderLinks`, `Project.findings_renderLinks`: a text is rendered tag by tag.
* `Project.renderTag_cases`: a tag becomes a link without a finding, or its label with one.
* `Project.mem_findings_renderTag_iff`: when a tag leads to which finding.
-/

namespace ApiPages

/-! ## The tags of a text -/

/-- The tag of a piece. -/
def Piece.tag? : Piece → Option Tag
  | .plain _ => none
  | .tag t => some t

/-- The tags of a text, from left to right. -/
def tagsOf (text : String) : List Tag := (pieces text.toList).filterMap Piece.tag?

/-- The text with something else in the place of its tags. -/
def substitute (emit : Tag → String) (text : String) : String :=
  String.ofList ((pieces text.toList).flatMap fun
    | .plain s => s
    | .tag t => (emit t).toList)

namespace Tag

/-- The tag has the form of those in texts: word characters between the colons, and no backquote
between the backquotes. -/
structure Fit (t : Tag) : Prop where
  word : ∀ c ∈ t.word, Text.isWord c = true
  body : '`' ∉ t.body

theorem Fit.of_match? {s : List Char} {t : Tag} (h : match? s = some t) : t.Fit := by
  unfold match? at h
  split at h
  · next s =>
    simp only at h
    split at h
    · next r _ =>
      split at h
      · cases h
      · cases h
        refine ⟨fun c hc => List.mem_takeWhile_imp hc, fun hmem => ?_⟩
        simpa using List.mem_takeWhile_imp hmem
    · cases h
  · cases h

theorem mem_consPiece {c : Char} {ps : List Piece} {t : Tag} :
    .tag t ∈ consPiece c ps ↔ .tag t ∈ ps := by
  unfold consPiece
  split <;> simp

theorem Fit.of_mem_piecesFrom {skip : Nat} {s : List Char} {t : Tag}
    (h : .tag t ∈ piecesFrom skip s) : t.Fit := by
  induction skip, s using piecesFrom.induct with
  | case1 skip => simp [piecesFrom] at h
  | case2 skip c s ih => exact ih (by simpa [piecesFrom] using h)
  | case3 c s u hmatch ih =>
    rw [piecesFrom, hmatch, List.mem_cons] at h
    rcases h with h | h
    · cases h
      exact .of_match? hmatch
    · exact ih h
  | case4 c s hmatch ih =>
    rw [piecesFrom, hmatch, mem_consPiece] at h
    exact ih h

theorem Fit.of_mem_tagsOf {text : String} {t : Tag} (h : t ∈ tagsOf text) : t.Fit := by
  obtain ⟨p, hp, ht⟩ := List.mem_filterMap.mp h
  cases p with
  | plain s => cases ht
  | tag u =>
    cases ht
    exact .of_mem_piecesFrom hp

theorem Fit.colon_not_mem_word {t : Tag} (ht : t.Fit) : ':' ∉ t.word := by
  intro hmem
  have hword : Text.isWord ':' = false := by decide +kernel
  rw [ht.word _ hmem] at hword
  cases hword

/-- The name of an unresolved cross-link tells the symbol and the tag. -/
theorem linkKey_inj {parent parent' : String} {t u : Tag} (ht : t.Fit) (hu : u.Fit)
    (h : Diagnostics.linkKey parent (String.ofList t.text) =
      Diagnostics.linkKey parent' (String.ofList u.text)) : parent = parent' ∧ t = u := by
  rw [← String.toList_inj] at h
  -- the last two backquotes bound the body, the last two colons before them the word
  have hkey : ∀ (p : String) (v : Tag),
      (Diagnostics.linkKey p (String.ofList v.text)).toList =
        (((p.toList ++ ['=', '>']) ++ ':' :: v.word) ++ [':']) ++ '`' :: v.body ++ ['`'] := by
    intro p v
    simp [Diagnostics.linkKey, text]
  rw [hkey, hkey] at h
  obtain ⟨h, hbody⟩ := Text.append_cons_inj ht.body hu.body (List.append_cancel_right h)
  obtain ⟨h, hword⟩ := Text.append_cons_inj ht.colon_not_mem_word hu.colon_not_mem_word
    (List.append_cancel_right h)
  refine ⟨String.toList_inj.mp (List.append_cancel_right h), ?_⟩
  obtain ⟨word, body⟩ := t
  obtain ⟨word', body'⟩ := u
  simp only at hword hbody
  rw [hword, hbody]

end Tag

/-! ## Kinds -/

namespace TagKind

/-- The word of a kind. -/
def word : TagKind → String
  | module => "mod"
  | classType => "class"
  | function => "func"
  | attr => "attr"
  | method => "meth"
  | global => "glob"

theorem ofWord?_eq_some_iff {w : String} {kind : TagKind} :
    ofWord? w = some kind ↔ w = kind.word := by
  constructor
  · intro h
    unfold ofWord? at h
    split at h <;> cases h <;> rfl
  · rintro rfl
    cases kind <;> rfl

/-- The word of a kind can stand in a tag. -/
theorem isWord_word (kind : TagKind) :
    kind.word.toList ≠ [] ∧ ∀ c ∈ kind.word.toList, Text.isWord c = true := by
  have hall : kind.word.toList ≠ [] ∧ kind.word.toList.all Text.isWord = true := by
    cases kind <;> decide +kernel
  exact hall.imp_right List.all_eq_true.mp

end TagKind

namespace Tag

variable {t : Tag}

/-- The known kind of a tag. -/
def kind? (t : Tag) : Option TagKind := TagKind.ofWord? (String.ofList t.word)

/-- The word of the tag is that of the kind. -/
def HasKind (t : Tag) (kind : TagKind) : Prop := t.word = kind.word.toList

instance (t : Tag) (kind : TagKind) : Decidable (t.HasKind kind) :=
  inferInstanceAs (Decidable (t.word = kind.word.toList))

theorem kind?_eq_some_iff {kind : TagKind} : t.kind? = some kind ↔ t.HasKind kind := by
  rw [kind?, TagKind.ofWord?_eq_some_iff, HasKind, ← String.toList_inj, String.toList_ofList]

theorem kind?_eq_none_iff : t.kind? = none ↔ ∀ kind, ¬t.HasKind kind := by
  simp only [Option.eq_none_iff_forall_ne_some, ne_eq, kind?_eq_some_iff]

end Tag

/-! ## Rendering -/

/-- What a tag is shown as when it is not linked. -/
def Tag.label (t : Tag) : String := (Target.ofBody t.body).label

/-- The path that a tag names. -/
def Tag.path (t : Tag) : String := (Target.ofBody t.body).path

namespace Project

variable (p : Project) (parent : String)

/-- The path of a tag leads nowhere: it lies outside the project, is no path below the root, and has
no link of its own. -/
structure LeadsNowhere (path : String) : Prop where
  not_empty : path ≠ ""
  outside : p.isInternal path = false
  notBelowRoot : p.navigationOf (DottedPath.child p.rootName path) = none
  noLink : p.externalLinks.get? path = none

/-- The findings that a tag of the symbol `parent` leads to. -/
inductive TagFault (t : Tag) : Finding → Prop
  | unknownKind (hkind : ∀ kind, ¬t.HasKind kind) :
      TagFault t (.unknownTag parent (String.ofList t.word))
  | noPath {kind : TagKind} (hkind : t.HasKind kind) (hpath : t.path = "") :
      TagFault t (.unresolvedLink parent (String.ofList t.text) [])
  | nowhereInside {kind : TagKind} (hkind : t.HasKind kind)
      (hinside : p.isInternal t.path = true) (hnav : p.navigationOf t.path = none)
      (hpath : t.path ≠ "") : TagFault t (.internalReference t.path)
  | nowhereOutside {kind : TagKind} (hkind : t.HasKind kind) (hpath : p.LeadsNowhere t.path)
      (hnone : p.candidates kind t.path = []) : TagFault t (.externalReference t.path)
  | several {kind : TagKind} (hkind : t.HasKind kind) (hpath : p.LeadsNowhere t.path)
      (hsome : p.candidates kind t.path ≠ []) :
      TagFault t (.unresolvedLink parent (String.ofList t.text) (p.candidates kind t.path))

/-- A text is rendered tag by tag. -/
theorem value_renderLinks (text : String) :
    (p.renderLinks parent text).value =
      substitute (fun t => (p.renderTag parent t).value) text := by
  simp only [renderLinks, substitute, Noted.value_each, List.flatMap_def]
  congr 2
  apply List.map_congr_left
  intro piece _
  cases piece <;> rfl

/-- The findings of a text are those of its tags. -/
theorem findings_renderLinks (text : String) :
    (p.renderLinks parent text).findings =
      (tagsOf text).flatMap fun t => (p.renderTag parent t).findings := by
  simp only [renderLinks, tagsOf, Noted.findings_each]
  induction pieces text.toList with
  | nil => rfl
  | cons piece ps ih =>
    rw [List.flatMap_cons, ih]
    cases piece <;> rfl

theorem renderTag_eq (t : Tag) :
    p.renderTag parent t =
      match t.kind? with
      | none => Noted.found t.label (.unknownTag parent (String.ofList t.word))
      | some kind => p.renderTarget parent kind (String.ofList t.text) ⟨t.label, t.path⟩ :=
  rfl

/-- A tag is rendered as a link, without a finding, or as its label, with one. -/
theorem renderTag_cases (t : Tag) :
    (∃ url, p.renderTag parent t = pure (markdownLink t.label url)) ∨
      ∃ f, p.renderTag parent t = Noted.found t.label f ∧ p.TagFault parent t f := by
  rw [renderTag_eq]
  split
  · next hnone => exact Or.inr ⟨_, rfl, .unknownKind (Tag.kind?_eq_none_iff.mp hnone)⟩
  · next kind hsome =>
    have hkind := Tag.kind?_eq_some_iff.mp hsome
    unfold renderTarget
    split
    · next hempty =>
      exact Or.inr ⟨_, rfl, .noPath hkind (String.isEmpty_iff.mp hempty)⟩
    · next hempty =>
      rw [String.isEmpty_iff] at hempty
      split
      · next hinside =>
        split
        · exact Or.inl ⟨_, rfl⟩
        · next hnav => exact Or.inr ⟨_, rfl, .nowhereInside hkind hinside hnav hempty⟩
      · next hinside =>
        split
        · exact Or.inl ⟨_, rfl⟩
        · next hnav =>
          split
          · exact Or.inl ⟨_, rfl⟩
          · next hlink =>
            rw [Bool.not_eq_true] at hinside
            have hpath : p.LeadsNowhere t.path := ⟨hempty, hinside, hnav, hlink⟩
            split
            · next hnone => exact Or.inr ⟨_, rfl, .nowhereOutside hkind hpath hnone⟩
            · next hsome => exact Or.inr ⟨_, rfl, .several hkind hpath hsome⟩

/-- What has a finding is rendered as its label. -/
theorem renderTag_of_tagFault {t : Tag} {f : Finding} (h : p.TagFault parent t f) :
    p.renderTag parent t = Noted.found t.label f := by
  have hknown {kind : TagKind} (hkind : t.HasKind kind) :
      p.renderTag parent t =
        p.renderTarget parent kind (String.ofList t.text) ⟨t.label, t.path⟩ := by
    rw [renderTag_eq, Tag.kind?_eq_some_iff.mpr hkind]
  cases h with
  | unknownKind hkind => rw [renderTag_eq, Tag.kind?_eq_none_iff.mpr hkind]
  | noPath hkind hpath => simp [hknown hkind, renderTarget, hpath]
  | nowhereInside hkind hinside hnav hpath =>
    simp [hknown hkind, renderTarget, hpath, hinside, hnav]
  | nowhereOutside hkind hpath hnone =>
    simp [hknown hkind, renderTarget, hpath.not_empty, hpath.outside, hpath.notBelowRoot,
      hpath.noLink, hnone]
  | several hkind hpath hsome =>
    simp [hknown hkind, renderTarget, hpath.not_empty, hpath.outside, hpath.notBelowRoot,
      hpath.noLink]

variable {p parent} in
theorem TagFault.unique {t : Tag} {f g : Finding} (hf : p.TagFault parent t f)
    (hg : p.TagFault parent t g) : f = g := by
  have h := (p.renderTag_of_tagFault parent hf).symm.trans (p.renderTag_of_tagFault parent hg)
  exact List.singleton_inj.mp (congrArg Noted.findings h)

theorem mem_findings_renderTag_iff {t : Tag} {f : Finding} :
    f ∈ (p.renderTag parent t).findings ↔ p.TagFault parent t f := by
  constructor
  · intro h
    rcases p.renderTag_cases parent t with ⟨url, heq⟩ | ⟨g, heq, hfault⟩
    · rw [heq] at h
      cases h
    · rw [heq] at h
      cases List.mem_singleton.mp h
      exact hfault
  · intro h
    rw [p.renderTag_of_tagFault parent h]
    exact List.mem_singleton_self f

end Project

end ApiPages
