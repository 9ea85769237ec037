import ApiPages.Proofs.TaggedTexts

/-!
# Tags and references of one path

The path that an annotation names and the path that a tag names are resolved by two procedures. The
one for tags also tries the path below the root, and looks for symbols that the path may be the end
of. Where neither of the two has anything to say, both procedures decide alike and find the same.

Results:

* `Project.renderLinks_text`: a text that is one tag is rendered as the tag.
* `Target.ofBody_path`: a path without brackets is its own target.
* `Project.renderTarget_eq_showLink`: the target of a tag is shown as what the path is resolved to.
* `Project.renderLinks_agrees`: a tag and a reference of one path agree.
-/

namespace ApiPages

/-! ## Targets -/

theorem Target.bracketed?_eq_none {s : List Char} (h : '<' ∉ s) : bracketed? s = none := by
  induction s with
  | nil => rfl
  | cons c s ih =>
    obtain ⟨hc, hs⟩ := not_or.mp (mt List.mem_cons.mpr h)
    rw [bracketed?, ih hs]
    simp [Ne.symm hc]

/-- A path without brackets is its own target, and its last segment is the label. -/
theorem Target.ofBody_path {path : String} (htrim : Text.trimString path = path)
    (hbracket : '<' ∉ path.toList) :
    ofBody path.toList = ⟨DottedPath.lastSegment path, path⟩ := by
  have hpath : String.ofList (Text.trim path.toList) = path := htrim
  rw [ofBody, bracketed?_eq_none hbracket]
  simp only [Option.getD_none, hpath]
  rfl

namespace Project

variable (p : Project) (parent : String)

/-! ## One tag -/

/-- A text that is one tag is rendered as the tag. -/
theorem renderLinks_text {t : Tag} (ht : t.Fit) (hword : t.word ≠ []) (hbody : t.body ≠ []) :
    p.renderLinks parent (String.ofList t.text) = p.renderTag parent t := by
  have hpieces : pieces t.text = [.tag t] := by
    have h := pieces_text ht hword hbody []
    rw [List.append_nil] at h
    exact h
  rw [renderLinks, String.toList_ofList, hpieces]
  simp [Noted.each, renderPiece]

/-- How a label is shown, with a link or without one. -/
def showLink (label : String) : Option String → String
  | some url => markdownLink label url
  | none => label

/-- Where neither the path below the root nor the symbols that end like the path have anything to
say, a tag is shown as what its path is resolved to, with the same findings. -/
theorem renderTarget_eq_showLink {kind : TagKind} {link : String} {t : Target} (hne : t.path ≠ "")
    (h : p.isInternal t.path = true ∨
      p.navigationOf (DottedPath.child p.rootName t.path) = none ∧
        (p.externalLinks.contains t.path = true ∨ p.candidates kind t.path = [])) :
    p.renderTarget parent kind link t = showLink t.label <$> p.resolve t.path := by
  have hempty : t.path.isEmpty = false := by
    rw [Bool.eq_false_iff, ne_eq, String.isEmpty_iff]
    exact hne
  rw [renderTarget, resolve, hempty]
  by_cases hinside : p.isInternal t.path = true
  · rw [hinside]
    cases p.navigationOf t.path <;> rfl
  · obtain ⟨hnav, hlink⟩ := h.resolve_left hinside
    rw [Bool.not_eq_true] at hinside
    rw [hinside, hnav]
    cases hurl : p.externalLinks.get? t.path with
    | some url => rfl
    | none =>
      have hnone : p.candidates kind t.path = [] := by
        apply hlink.resolve_left
        rw [Dict.contains, hurl]
        exact Bool.false_ne_true
      rw [hnone]
      rfl

/-- A tag and a reference of one path agree, where neither the path below the root nor the symbols
that end like the path have anything to say about the tag. Both are linked to the same place or not
linked at all, and whatever is in the bins before, the same is in them afterwards. -/
theorem renderLinks_agrees {word : String} {kind : TagKind}
    (hkind : TagKind.ofWord? word = some kind) (d : Diagnostics) {path : String} (hne : path ≠ "")
    (htrim : Text.trimString path = path) (hquote : '`' ∉ path.toList)
    (hbracket : '<' ∉ path.toList)
    (h : p.isInternal path = true ∨
      p.isInternal path = false ∧ p.navigationOf (DottedPath.child p.rootName path) = none ∧
        (p.externalLinks.contains path = true ∨ p.candidates kind path = [])) :
    ((∃ link, (p.resolve path).value = some link ∧
        (p.renderLinks parent (":" ++ word ++ ":`" ++ path ++ "`")).value =
          markdownLink (DottedPath.lastSegment path) link) ∨
      (p.resolve path).value = none ∧
        (p.renderLinks parent (":" ++ word ++ ":`" ++ path ++ "`")).value =
          DottedPath.lastSegment path) ∧
    d.recordAll (p.renderLinks parent (":" ++ word ++ ":`" ++ path ++ "`")).findings =
      d.recordAll (p.resolve path).findings := by
  obtain ⟨hword, hchars⟩ : word.toList ≠ [] ∧ ∀ c ∈ word.toList, Text.isWord c = true := by
    rw [TagKind.ofWord?_eq_some_iff.mp hkind]
    exact kind.isWord_word
  have hbody : path.toList ≠ [] := fun hnil => hne (String.toList_inj.mp hnil)
  have htext : ":" ++ word ++ ":`" ++ path ++ "`" =
      String.ofList (Tag.text ⟨word.toList, path.toList⟩) := by
    rw [← String.toList_inj]
    simp [Tag.text]
  have hrender : p.renderLinks parent (":" ++ word ++ ":`" ++ path ++ "`") =
      showLink (DottedPath.lastSegment path) <$> p.resolve path := by
    rw [htext, renderLinks_text p parent ⟨hchars, hquote⟩ hword hbody, renderTag]
    simp only [String.ofList_toList, hkind, Target.ofBody_path htrim hbracket]
    exact p.renderTarget_eq_showLink parent hne (h.imp_right And.right)
  rw [hrender, Noted.value_map, Noted.findings_map]
  refine ⟨?_, rfl⟩
  cases (p.resolve path).value with
  | some link => exact Or.inl ⟨link, rfl, rfl⟩
  | none => exact Or.inr ⟨rfl, rfl⟩

/-- A package whose file declares a class. -/
def packageWithClass : Declaration :=
  .mk { DeclFields.named .module "p" with
      filepath := some "p/__init__.py", docstring := some "Root." }
    [.mk { DeclFields.named .module "core" with filepath := some "p/core.py" }
        [.mk { DeclFields.named .classType "X" with docstring := some "A class." } []]]

/-- The class is linked, and a path that leads nowhere is reported, whether they are named by a tag
or by an annotation. -/
theorem packageWithClass_references_agree :
    ∃ project : Noted Project,
      Project.build ⟨Node.ofDeclaration packageWithClass⟩
        { Settings.standard with useStandardLinks := false } = .ok project ∧
      (project.value.resolve "p.core.X").value = some "@nav/api/core.X" ∧
      (project.value.renderLinks "p" ":class:`p.core.X`").value = "[X](@nav/api/core.X)" ∧
      (project.value.resolve "requests.get").value = none ∧
      (project.value.renderLinks "p" ":func:`requests.get`").value = "get" ∧
      ∀ d : Diagnostics,
        d.recordAll (project.value.renderLinks "p" ":class:`p.core.X`").findings =
          d.recordAll (project.value.resolve "p.core.X").findings ∧
        d.recordAll (project.value.renderLinks "p" ":func:`requests.get`").findings =
          d.recordAll (project.value.resolve "requests.get").findings := by
  have hclass : ":class:`p.core.X`" = ":" ++ "class" ++ ":`" ++ "p.core.X" ++ "`" := by decide
  have hfunc : ":func:`requests.get`" = ":" ++ "func" ++ ":`" ++ "requests.get" ++ "`" := by decide
  refine ⟨_, rfl, by decide +kernel, by decide +kernel, by decide +kernel, by decide +kernel, ?_⟩
  intro d
  rw [hclass, hfunc]
  constructor
  · exact (renderLinks_agrees _ "p" rfl d (by decide) (by decide) (by decide) (by decide)
      (Or.inl (by decide +kernel))).2
  · exact (renderLinks_agrees _ "p" rfl d (by decide) (by decide) (by decide) (by decide)
      (Or.inr ⟨by decide +kernel, by decide +kernel, Or.inr (by decide +kernel)⟩)).2

end Project

end ApiPages
