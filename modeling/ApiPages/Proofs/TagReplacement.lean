import ApiPages.Proofs.ReferenceAgreement

/-!
# Replacing tags

A text is rendered by replacing its tags. The gaps are copied character by character. What stands in
the place of a tag depends on the tag and the project only; it is the label of the tag, or a link
with that label.

Results:

* `Project.value_renderTag`, `Project.shown_cases`: what a tag is shown as, in whatever symbol it
  stands.
* `Project.renderLinks_replaces_tags`: a text is rendered by replacing its tags.
-/

namespace ApiPages

namespace Project

variable (p : Project)

/-- What a tag is shown as, wherever it stands. -/
def shown (t : Tag) : String := (p.renderTag "" t).value

theorem value_renderTag (parent : String) (t : Tag) : (p.renderTag parent t).value = p.shown t := by
  rw [shown, renderTag_eq, renderTag_eq]
  cases t.kind? with
  | none => rfl
  | some kind =>
    simp only [renderTarget]
    split
    · rfl
    · split
      · cases p.navigationOf t.path <;> rfl
      · cases p.navigationOf (DottedPath.child p.rootName t.path) with
        | some n => rfl
        | none =>
          cases p.externalLinks.get? t.path with
          | some url => rfl
          | none => cases p.candidates kind t.path <;> rfl

/-- A tag is shown as its label, or as a link with that label. -/
theorem shown_cases (t : Tag) :
    p.shown t = t.label ∨ ∃ url, p.shown t = markdownLink t.label url := by
  rcases p.renderTag_cases "" t with ⟨url, heq⟩ | ⟨f, heq, -⟩
  · exact Or.inr ⟨url, congrArg Noted.value heq⟩
  · exact Or.inl (congrArg Noted.value heq)

/-- A text is rendered by replacing its tags. What stands in the place of a tag is its label, or a
link with that label, and depends on nothing but the tag and the project. Every text is made up of
its gaps and tags, and in whatever symbol it stands, the gaps are copied. A text without tags stays
as it is, and nothing is reported about it. -/
theorem renderLinks_replaces_tags :
    ∃ shown : Tag → String,
      (∀ t, ∃ label, t.HasLabel label ∧
        (shown t = label ∨ ∃ url, shown t = markdownLink label url)) ∧
      ∀ (parent text : String) (d : Diagnostics),
        (∃ tags last, IsTagged text.toList tags last) ∧
        (∀ tags last, IsTagged text.toList tags last →
          text = String.ofList (tags.flatMap (fun m => m.1 ++ m.2.text) ++ last) ∧
          (p.renderLinks parent text).value =
            String.ofList (tags.flatMap (fun m => m.1 ++ (shown m.2).toList) ++ last)) ∧
        (TagFree text.toList → (p.renderLinks parent text).value = text ∧
          d.recordAll (p.renderLinks parent text).findings = d) := by
  refine ⟨p.shown, fun t => ⟨t.label, t.hasLabel_label, p.shown_cases t⟩, fun parent text d => ?_⟩
  have hvalue : ∀ tags last, IsTagged text.toList tags last →
      (p.renderLinks parent text).value =
        String.ofList (tags.flatMap (fun m => m.1 ++ (p.shown m.2).toList) ++ last) := by
    intro tags last h
    simpa only [p.value_renderTag] using p.replacesTags_renderLinks parent text tags last h
  refine ⟨exists_isTagged text.toList, fun tags last h => ⟨?_, hvalue tags last h⟩,
    fun hfree => ⟨?_, ?_⟩⟩
  · rw [← h.eq_flatMap, String.ofList_toList]
  · rw [hvalue [] text.toList (.last hfree), List.flatMap_nil, List.nil_append,
      String.ofList_toList]
  · rw [findings_renderLinks, tagFree_iff.mp hfree]
    rfl

/-- In a package with a class, a text with a stray colon and two tags is rendered in place, and a
text that only looks like tags is left alone. -/
theorem packageWithClass_replaces_tags :
    ∃ project : Noted Project,
      Project.build ⟨Node.ofDeclaration packageWithClass⟩
        { Settings.standard with useStandardLinks := false } = .ok project ∧
      (project.value.renderLinks "p" "See ::class:`an X <p.core.X>`:b:`?`!").value =
        "See :[an X](@nav/api/core.X)?!" ∧
      (∃ (shown : Tag → String) (tags : List (List Char × Tag)) (last : List Char),
        IsTagged "See ::class:`an X <p.core.X>`:b:`?`!".toList tags last ∧
          tags.map Prod.snd =
            [⟨"class".toList, "an X <p.core.X>".toList⟩, ⟨['b'], ['?']⟩] ∧
          (project.value.renderLinks "p" "See ::class:`an X <p.core.X>`:b:`?`!").value =
            String.ofList (tags.flatMap (fun m => m.1 ++ (shown m.2).toList) ++ last)) ∧
      TagFree "a :b:`` :`c` `:d:e`".toList ∧
      (project.value.renderLinks "p" "a :b:`` :`c` `:d:e`").value = "a :b:`` :`c` `:d:e`" ∧
      ∀ d : Diagnostics,
        d.recordAll (project.value.renderLinks "p" "a :b:`` :`c` `:d:e`").findings = d := by
  have hfree : TagFree "a :b:`` :`c` `:d:e`".toList := tagFree_iff.mpr (by decide +kernel)
  refine ⟨_, rfl, by decide +kernel, ?_⟩
  obtain ⟨shown, -, h⟩ := renderLinks_replaces_tags _
  obtain ⟨⟨tags, last, htagged⟩, hvalue, -⟩ :=
    h "p" "See ::class:`an X <p.core.X>`:b:`?`!" .empty
  refine ⟨⟨shown, tags, last, htagged, ?_, (hvalue tags last htagged).2⟩, hfree,
    ((h "p" _ .empty).2.2 hfree).1, fun d => ((h "p" _ d).2.2 hfree).2⟩
  rw [← htagged.tagsOf_eq]
  decide +kernel

end Project

end ApiPages
