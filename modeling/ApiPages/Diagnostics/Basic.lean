import ApiPages.Dict
import ApiPages.Diagnostics.Finding
import ApiPages.Json.Decode
import ApiPages.Text.Lines

/-!
# Diagnostics

The findings of a run, sorted into six bins. Bins list their entries in order and hold each once.

* `Diagnostics` — the bins.
* `Diagnostics.record`, `Diagnostics.recordAll`, `Diagnostics.merge` — adding findings.
* `DiagnosticCounts`, `Diagnostics.counts` — the sizes of the bins.
* `Diagnostics.render` — the labelled text.
* `Diagnostics.toJson`, `Diagnostics.ofJson?` — the JSON form.
-/

namespace ApiPages

/-- The findings of a run in six bins. -/
structure Diagnostics where
  /-- Descriptions by symbol. -/
  errors : Dict NameSet
  /-- Paths inside the project that lead nowhere. -/
  internalReferences : NameSet
  /-- Paths outside the project without a link. -/
  externalReferences : NameSet
  /-- Symbols without a docstring. -/
  missingDocstrings : NameSet
  /-- Descriptions of cross-links with an unknown tag. -/
  unknownTags : NameSet
  /-- Candidates by cross-link; a later list replaces an earlier one. -/
  unresolvedLinks : Dict (List String)
deriving DecidableEq

/-- The sizes of the bins. -/
structure DiagnosticCounts where
  errors : Nat
  internalReferences : Nat
  externalReferences : Nat
  missingDocstrings : Nat
  unknownTags : Nat
  unresolvedLinks : Nat
deriving DecidableEq, Repr

namespace Diagnostics

/-- Nothing was found. -/
def empty : Diagnostics := ⟨∅, ∅, ∅, ∅, ∅, ∅⟩

instance : Inhabited Diagnostics := ⟨empty⟩

/-- Adds descriptions to those of a symbol. -/
def addErrors (errors : Dict NameSet) (path : String) (descriptions : NameSet) : Dict NameSet :=
  errors.insert path (((errors.get? path).getD ∅).merge descriptions)

/-- How a cross-link with an unknown tag is described. -/
def describeTag (parent tag : String) : String := "[" ++ parent ++ "] => `" ++ tag ++ "` unknown"

/-- How an unresolved cross-link is named. -/
def linkKey (parent link : String) : String := parent ++ "=>" ++ link

/-- Puts a finding in its bin. -/
def record (d : Diagnostics) : Finding → Diagnostics
  | .error path description =>
    { d with errors := addErrors d.errors path (NameSet.ofNames [description]) }
  | .internalReference path => { d with internalReferences := d.internalReferences.add path }
  | .externalReference path => { d with externalReferences := d.externalReferences.add path }
  | .missingDocstring path => { d with missingDocstrings := d.missingDocstrings.add path }
  | .unknownTag parent tag => { d with unknownTags := d.unknownTags.add (describeTag parent tag) }
  | .unresolvedLink parent link candidates =>
    { d with unresolvedLinks := d.unresolvedLinks.insert (linkKey parent link) candidates }

/-- Puts findings in their bins, one after the other. -/
def recordAll (d : Diagnostics) (fs : List Finding) : Diagnostics := fs.foldl record d

/-- The diagnostics of some findings. -/
def ofFindings (fs : List Finding) : Diagnostics := empty.recordAll fs

/-- The findings of both; a candidate list of the second replaces one of the first. -/
def merge (a b : Diagnostics) : Diagnostics where
  errors := b.errors.entries.foldl (fun acc e => addErrors acc e.1 e.2) a.errors
  internalReferences := a.internalReferences.merge b.internalReferences
  externalReferences := a.externalReferences.merge b.externalReferences
  missingDocstrings := a.missingDocstrings.merge b.missingDocstrings
  unknownTags := a.unknownTags.merge b.unknownTags
  unresolvedLinks := a.unresolvedLinks.merge b.unresolvedLinks

/-- The sizes of the bins; errors are counted by symbol. -/
def counts (d : Diagnostics) : DiagnosticCounts where
  errors := d.errors.size
  internalReferences := d.internalReferences.size
  externalReferences := d.externalReferences.size
  missingDocstrings := d.missingDocstrings.size
  unknownTags := d.unknownTags.size
  unresolvedLinks := d.unresolvedLinks.size

/-- All bins are empty. -/
def isEmpty (d : Diagnostics) : Bool := d.counts == ⟨0, 0, 0, 0, 0, 0⟩

/-! ## Text -/

/-- The heading of a bin. -/
def heading (label : String) (count : Nat) : String := label ++ " (" ++ toString count ++ "):\n"

/-- An entry of a bin. -/
def item (text : String) : String := "  - " ++ text ++ "\n"

/-- The text of a set of names. -/
def renderNames (label : String) (names : NameSet) : String :=
  heading label names.size ++ String.join (names.keys.map item)

/-- The labelled text of all bins. -/
def render (d : Diagnostics) : String :=
  renderNames "Internal cross links errors" d.internalReferences
    ++ renderNames "External cross links errors" d.externalReferences
    ++ renderNames "No docstring errors" d.missingDocstrings
    ++ renderNames "Cross-link tag unknown" d.unknownTags
    ++ heading "Cross-link unresolved" d.unresolvedLinks.size
    ++ String.join (d.unresolvedLinks.entries.map fun e =>
        item (e.1 ++ " candidates: [" ++ Text.joinStrings ", " e.2 ++ "]"))
    ++ heading "Errors" d.errors.size
    ++ String.join (d.errors.entries.flatMap fun e => e.2.keys.map fun t => item (e.1 ++ ": " ++ t))

/-! ## JSON -/

/-- The names of the bins in JSON, in order. -/
def binNames : List String :=
  ["errors", "internal_cross_ref_errors", "external_cross_ref_errors", "no_docstrings",
    "unknown_tags", "unresolved_links"]

/-- A set of names as JSON. -/
def namesJson (names : NameSet) : Json := Json.strings names.keys

/-- The diagnostics as JSON. -/
def toJson (d : Diagnostics) : Json :=
  .obj (binNames.zip
    [.obj (d.errors.entries.map fun e => (e.1, namesJson e.2)), namesJson d.internalReferences,
      namesJson d.externalReferences, namesJson d.missingDocstrings, namesJson d.unknownTags,
      .obj (d.unresolvedLinks.entries.map fun e => (e.1, Json.strings e.2))])

/-- The diagnostics of a JSON value; no bin may be missing. -/
def ofJson? (j : Json) : Option Diagnostics := do
  let r ← j.record? binNames
  return {
    errors := ← r.required "errors" (Json.asDict? Json.asNames?)
    internalReferences := ← r.required "internal_cross_ref_errors" Json.asNames?
    externalReferences := ← r.required "external_cross_ref_errors" Json.asNames?
    missingDocstrings := ← r.required "no_docstrings" Json.asNames?
    unknownTags := ← r.required "unknown_tags" Json.asNames?
    unresolvedLinks := ← r.required "unresolved_links" (Json.asDict? Json.asStrings?) }

end Diagnostics

/-- The counts as JSON. -/
def DiagnosticCounts.toJson (c : DiagnosticCounts) : Json :=
  .obj (Diagnostics.binNames.zip
    [.nat c.errors, .nat c.internalReferences, .nat c.externalReferences, .nat c.missingDocstrings,
      .nat c.unknownTags, .nat c.unresolvedLinks])

end ApiPages
