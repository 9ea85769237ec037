import ApiPages.Json.Decode
import ApiPages.Json.Parser
import ApiPages.Page.Basic

/-!
# Pages as JSON

Every part of a page is an object with its fields in a fixed order. It is read back from such an
object or from the array of its fields; in an object, fields that may be null may also be missing.

* `Page.toJson`, `Page.ofJson?` — a page, and likewise every part of it.
* `Page.ofText?` — the page of a JSON text.
-/

namespace ApiPages

/-- A number or null. -/
def lineJson : Option UInt32 → Json
  | some n => .nat n.toNat
  | none => .null

/-! ## Semantic -/

namespace Semantic

/-- The names of the fields, in order. -/
def fieldNames : List String := ["role", "labels", "attributes", "relations"]

/-- The role and its remarks as an object. -/
def toJson (s : Semantic) : Json :=
  .obj (fieldNames.zip
    [.str s.role, Json.strings s.labels,
      .obj (s.attributes.entries.map fun e => (e.1, Json.ofOption e.2)),
      .obj (s.relations.entries.map fun e => (e.1, Json.strings e.2))])

/-- The role and the remarks of a value. -/
def ofJson? (j : Json) : Option Semantic := do
  let r ← j.record? fieldNames
  return {
    role := ← r.required "role" Json.asString?
    labels := ← r.required "labels" Json.asStrings?
    attributes := ← r.required "attributes" (Json.asDict? (Json.asOption? Json.asString?))
    relations := ← r.required "relations" (Json.asDict? Json.asStrings?) }

end Semantic

/-! ## Documentation -/

namespace DocText

/-- The names of the fields, in order. -/
def fieldNames : List String := ["title", "content", "contentType", "semantic"]

/-- The only type of content. -/
def contentType : String := "Markdown"

/-- A section as an object. -/
def toJson (d : DocText) : Json :=
  .obj (fieldNames.zip
    [Json.ofOption d.title, .str d.content, .str contentType, d.semantic.toJson])

/-- The section of a value. -/
def ofJson? (j : Json) : Option DocText := do
  let r ← j.record? fieldNames
  let title ← r.optional "title" Json.asString?
  let content ← r.required "content" Json.asString?
  let _ ← r.required "contentType" (Json.asUnitCase? [contentType])
  let semantic ← r.required "semantic" Semantic.ofJson?
  return ⟨title, content, semantic⟩

end DocText

namespace Documentation

/-- The names of the fields, in order. -/
def fieldNames : List String := ["sections"]

/-- The sections as an object. -/
def toJson (d : Documentation) : Json :=
  .obj (fieldNames.zip [.arr (d.sections.map DocText.toJson)])

/-- The sections of a value. -/
def ofJson? (j : Json) : Option Documentation := do
  let r ← j.record? fieldNames
  return ⟨← r.required "sections" (Json.asList? DocText.ofJson?)⟩

end Documentation

/-! ## Code -/

namespace Code

/-- The names of the fields, in order. -/
def fieldNames : List String :=
  ["filePath", "startLine", "endLine", "declaration", "implementation", "references"]

/-- The source of a symbol as an object. -/
def toJson (c : Code) : Json :=
  .obj (fieldNames.zip
    [.str c.file, lineJson c.startLine, lineJson c.endLine, .str c.declaration,
      Json.ofOption c.implementation,
      .obj (c.references.entries.map fun e => (e.1, Json.ofOption e.2))])

/-- The source of a value. -/
def ofJson? (j : Json) : Option Code := do
  let r ← j.record? fieldNames
  return {
    file := ← r.required "filePath" Json.asString?
    startLine := ← r.optional "startLine" Json.asLine?
    endLine := ← r.optional "endLine" Json.asLine?
    declaration := ← r.required "declaration" Json.asString?
    implementation := ← r.optional "implementation" Json.asString?
    references := ← r.required "references" (Json.asDict? (Json.asOption? Json.asString?)) }

end Code

/-! ## Entries -/

namespace AttributeEntry

/-- The names of the fields, in order. -/
def fieldNames : List String := ["name", "semantic", "documentation", "path", "code"]

/-- An attribute as an object. -/
def toJson (a : AttributeEntry) : Json :=
  .obj (fieldNames.zip
    [.str a.name, a.semantic.toJson, a.documentation.toJson, .str a.path, a.code.toJson])

/-- The attribute of a value. -/
def ofJson? (j : Json) : Option AttributeEntry := do
  let r ← j.record? fieldNames
  return {
    name := ← r.required "name" Json.asString?
    semantic := ← r.required "semantic" Semantic.ofJson?
    documentation := ← r.required "documentation" Documentation.ofJson?
    path := ← r.required "path" Json.asString?
    code := ← r.required "code" Code.ofJson? }

end AttributeEntry

namespace CallableEntry

/-- The names of the fields, in order. -/
def fieldNames : List String := ["name", "documentation", "path", "code", "semantic"]

/-- A function as an object. -/
def toJson (c : CallableEntry) : Json :=
  .obj (fieldNames.zip
    [.str c.name, c.documentation.toJson, .str c.path, c.code.toJson, c.semantic.toJson])

/-- The function of a value. -/
def ofJson? (j : Json) : Option CallableEntry := do
  let r ← j.record? fieldNames
  return {
    name := ← r.required "name" Json.asString?
    documentation := ← r.required "documentation" Documentation.ofJson?
    path := ← r.required "path" Json.asString?
    code := ← r.required "code" Code.ofJson?
    semantic := ← r.required "semantic" Semantic.ofJson? }

end CallableEntry

namespace ClassEntry

/-- The names of the fields, in order. -/
def fieldNames : List String :=
  ["name", "documentation", "path", "semantic", "attributes", "callables", "code"]

/-- A class as an object. -/
def toJson (c : ClassEntry) : Json :=
  .obj (fieldNames.zip
    [.str c.name, c.documentation.toJson, .str c.path, c.semantic.toJson,
      .arr (c.attributes.map AttributeEntry.toJson), .arr (c.callables.map CallableEntry.toJson),
      c.code.toJson])

/-- The class of a value. -/
def ofJson? (j : Json) : Option ClassEntry := do
  let r ← j.record? fieldNames
  return {
    name := ← r.required "name" Json.asString?
    documentation := ← r.required "documentation" Documentation.ofJson?
    path := ← r.required "path" Json.asString?
    semantic := ← r.required "semantic" Semantic.ofJson?
    attributes := ← r.required "attributes" (Json.asList? AttributeEntry.ofJson?)
    callables := ← r.required "callables" (Json.asList? CallableEntry.ofJson?)
    code := ← r.required "code" Code.ofJson? }

end ClassEntry

namespace ChildEntry

/-- The names of the fields, in order. -/
def fieldNames : List String := ["name", "path", "isLeaf"]

/-- A package as an object. -/
def toJson (c : ChildEntry) : Json :=
  .obj (fieldNames.zip [.str c.name, .str c.path, .bool c.isLeaf])

/-- The package of a value. -/
def ofJson? (j : Json) : Option ChildEntry := do
  let r ← j.record? fieldNames
  return {
    name := ← r.required "name" Json.asString?
    path := ← r.required "path" Json.asString?
    isLeaf := ← r.required "isLeaf" Json.asBool? }

end ChildEntry

namespace FileEntry

/-- The names of the fields, in order. -/
def fieldNames : List String := ["name", "path", "documentation"]

/-- A file as an object. -/
def toJson (f : FileEntry) : Json :=
  .obj (fieldNames.zip [.str f.name, .str f.path, f.documentation.toJson])

/-- The file of a value. -/
def ofJson? (j : Json) : Option FileEntry := do
  let r ← j.record? fieldNames
  return {
    name := ← r.required "name" Json.asString?
    path := ← r.required "path" Json.asString?
    documentation := ← r.required "documentation" Documentation.ofJson? }

end FileEntry

/-! ## Pages -/

namespace Page

/-- The names of the fields, in order. -/
def fieldNames : List String :=
  ["name", "path", "semantic", "children", "attributes", "types", "callables", "files",
    "documentation"]

/-- A page as an object. -/
def toJson (p : Page) : Json :=
  .obj (fieldNames.zip
    [.str p.name, .str p.path, p.semantic.toJson, .arr (p.children.map ChildEntry.toJson),
      .arr (p.attributes.map AttributeEntry.toJson), .arr (p.types.map ClassEntry.toJson),
      .arr (p.callables.map CallableEntry.toJson), .arr (p.files.map FileEntry.toJson),
      p.documentation.toJson])

/-- The page of a value. -/
def ofJson? (j : Json) : Option Page := do
  let r ← j.record? fieldNames
  return {
    name := ← r.required "name" Json.asString?
    path := ← r.required "path" Json.asString?
    semantic := ← r.required "semantic" Semantic.ofJson?
    children := ← r.required "children" (Json.asList? ChildEntry.ofJson?)
    attributes := ← r.required "attributes" (Json.asList? AttributeEntry.ofJson?)
    types := ← r.required "types" (Json.asList? ClassEntry.ofJson?)
    callables := ← r.required "callables" (Json.asList? CallableEntry.ofJson?)
    files := ← r.required "files" (Json.asList? FileEntry.ofJson?)
    documentation := ← r.required "documentation" Documentation.ofJson? }

/-- The page of a JSON text. The known parts of a page nest a few levels deep, so there is no limit
on their depth as there is for snapshots. -/
def ofText? (text : String) : Option Page := (Json.parse? text).bind ofJson?

end Page

end ApiPages
