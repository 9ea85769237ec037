import ApiPages.Docstring.Basic
import ApiPages.Expr.Walk
import ApiPages.Page.Basic
import ApiPages.Reference.CrossLink
import ApiPages.SourceHeader

/-!
# Building pages

The page of a module is built from its contents: docstrings are read and their cross-links rendered,
declarations are cut from sources, and the names in them are linked.

* `Project.documentationOf` — the rendered docstring of a symbol.
* `Project.codeOf` — the source of a symbol with the links of its names.
* `Project.attributeEntry`, `Project.callableEntry`, `Project.classEntry`, `Project.fileEntry` — the
  parts of a page.
* `Project.pageOf` — the page of a module.
-/

namespace ApiPages.Project

/-! ## Documentation -/

/-- The place of a section in the documentation of a function. -/
def rank : DocSection → Nat
  | .text _ => 0
  | .admonition _ _ _ => 0
  | .returns _ _ => 1
  | .parameters _ => 2

/-- An entry of the list of parameters. -/
def renderParameter (p : Project) (parent : String) (i : DocParameter) : Noted String := do
  let description ← p.renderLinks parent i.description
  return "\n*  **" ++ i.name ++ "**: " ++ description

/-- A section of the docstring of the symbol `parent`. -/
def renderSection (p : Project) (parent : String) : DocSection → Noted DocText
  | .text text => do
    let content ← p.renderLinks parent text
    return ⟨none, content, Semantic.ofRole "text"⟩
  | .admonition title tag body => do
    let content ← p.renderLinks parent body
    return ⟨some title, content, (Semantic.ofRole "admonition").withAttribute "tag" tag⟩
  | .returns _ description => do
    let content ← p.renderLinks parent description
    return ⟨some "Returns", content, Semantic.ofRole "returns"⟩
  | .parameters items => do
    let contents ← Noted.each (p.renderParameter parent) items
    return ⟨some "Arguments", String.join contents, Semantic.ofRole "arguments"⟩

/-- The sections in the order of a function's documentation: remarks, the returned value, then
parameters. Sections of one place keep their order. -/
def arrange (sections : List DocSection) : List DocSection :=
  [0, 1, 2].flatMap fun k => sections.filter fun s => rank s == k

/-- The sections that the documentation of a symbol shows, in order. Only functions have parameters
and returned values. -/
def shownSections (n : Node) (sections : List DocSection) : List DocSection :=
  if n.isFunction then arrange sections else sections.filter fun s => rank s == 0

/-- The documentation of a symbol. A missing docstring is a finding except for plain files, and so
is every section that is dropped. -/
def documentationOf (p : Project) (n : Node) : Noted Documentation :=
  if n.isDocumented then
    let d := Docstring.parse (n.info.docstring.getD "").toList
    let texts := Noted.each (p.renderSection n.path) (shownSections n d.sections)
    ⟨⟨texts.value⟩, d.faults.map (fun f => .error n.path f.message) ++ texts.findings⟩
  else if n.isPackage || !n.isModule then Noted.found ⟨[]⟩ (.missingDocstring n.path)
  else pure ⟨[]⟩

/-! ## Code -/

/-- The expressions of a symbol whose names are linked. -/
def linkedExprs (n : Node) : List Expr :=
  match n.info.kind with
  | .classType bases decorators => decorators ++ bases
  | .function parameters returns _ _ => parameters.filterMap Parameter.typeExpr ++ returns.toList
  | .attr typeExpr value _ => typeExpr.toList ++ value.toList
  | _ => []

/-- The symbol refers to itself by its name. -/
def refersToItself (n : Node) : Bool := n.isFunction || n.isClass

/-- The names that the declaration of a symbol refers to. -/
def linkedNames (n : Node) : List NameRef :=
  Expr.collectNames (linkedExprs n) ++ (if refersToItself n then [⟨n.name, n.path⟩] else [])

/-- A name with the link of its path. -/
def resolveName (p : Project) (r : NameRef) : Noted (String × Option String) := do
  let link ← p.resolve r.path
  return (r.spelling, link)

/-- The links of the names of a symbol; of two names spelled alike the last one counts. -/
def referencesOf (p : Project) (n : Node) : Noted (Dict (Option String)) := do
  let links ← Noted.each p.resolveName (linkedNames n)
  return Dict.ofList links

/-- The declaration of a symbol. -/
def declarationOf (n : Node) : List Char :=
  if n.isFunction then functionDeclaration n.source
  else if n.isClass then classDeclaration n.source n.isDocumented
  else n.source

/-- The source of a symbol. -/
def codeOf (p : Project) (n : Node) : Noted Code := do
  let references ← p.referencesOf n
  return {
    file := p.snapshot.relativeFile n
    startLine := n.info.lineno
    endLine := n.info.endlineno
    declaration := String.ofList (declarationOf n)
    implementation := if refersToItself n then some (String.ofList n.source) else none
    references }

/-! ## Entries -/

/-- The path of a symbol relative to the root. -/
def relativePath (p : Project) (n : Node) : String := DottedPath.relativeTo p.rootName n.path

/-- An attribute in a role. -/
def attributeEntry (p : Project) (role : String) (n : Node) : Noted AttributeEntry := do
  let documentation ← p.documentationOf n
  let code ← p.codeOf n
  return {
    name := n.name, semantic := Semantic.ofRole role, documentation
    path := p.relativePath n, code }

/-- A function in a role. -/
def callableEntry (p : Project) (role : String) (n : Node) : Noted CallableEntry := do
  let documentation ← p.documentationOf n
  let code ← p.codeOf n
  return {
    name := n.name, documentation, path := p.relativePath n, code
    semantic := Semantic.ofRole role }

/-- The canonical paths of the names in the bases of a class. -/
def basePaths (n : Node) : List String :=
  match n.info.kind with
  | .classType bases _ => (Expr.collectNames bases).map NameRef.path
  | _ => []

/-- A class with the documented members that it declares. -/
def classEntry (p : Project) (n : Node) : Noted ClassEntry := do
  let attributes ← Noted.each (p.attributeEntry "attribute") (Contents.classAttributes n)
  let callables ← Noted.each (p.callableEntry "method") (Contents.methods n)
  let documentation ← p.documentationOf n
  let code ← p.codeOf n
  return {
    name := n.name, documentation, path := p.relativePath n
    semantic := (Semantic.ofRole "class").withRelation "inherits" (basePaths n)
    attributes, callables, code }

/-- A plain file. -/
def fileEntry (p : Project) (n : Node) : Noted FileEntry := do
  let documentation ← p.documentationOf n
  return { name := n.name, path := p.snapshot.relativeFile n, documentation }

/-- A package that has a page of its own. -/
def childEntry (n : Node) : ChildEntry := ⟨n.name, n.path, Contents.isLeaf n⟩

/-! ## Pages -/

/-- The page of a module. Its attributes are sorted by name; all else is in declaration order. -/
def pageOf (p : Project) (module : Node) : Noted Page := do
  let c := Contents.ofModule module
  let attributes ← Noted.each (p.attributeEntry "global") c.attributes
  let types ← Noted.each p.classEntry c.classes
  let callables ← Noted.each (p.callableEntry "function") c.functions
  let files ← Noted.each p.fileEntry c.files
  let documentation ← p.documentationOf module
  return {
    name := module.name
    path := p.relativePath module
    semantic := Semantic.ofRole "module"
    children := c.packages.map childEntry
    attributes := attributes.mergeSort fun a b => decide (a.name ≤ b.name)
    types, callables, files, documentation }

end ApiPages.Project
