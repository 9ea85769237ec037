import ApiPages.Reference.Resolve
import ApiPages.Reference.Tag

/-!
# Rendering cross-links

The tags of a text are rendered as Markdown links, or as plain labels together with a finding. A
path is tried as a path of the project, as a path below its root, and as a path with an outside
link. A path that only ends like a symbol is not resolved: the symbols it may mean are reported.

* `Project.candidates` — the symbols that the end of a path may mean.
* `Project.renderTag`, `Project.renderLinks` — a tag, and a text with all its tags.
-/

namespace ApiPages.Project

/-- The symbol fits the end of a path: for tags of members, it is a member of a class that fits the
parent of that path, or has its name; for other tags its path ends like it. -/
def fits (kind : TagKind) (suffix : String) (e : String × SymbolRef) : Bool :=
  if kind.isMember then
    let wanted := DottedPath.splitMember suffix
    let symbol := DottedPath.splitMember e.1
    e.2.kind.isMember &&
      (if wanted.1.isEmpty then symbol.2 == wanted.2 else DottedPath.endsWith symbol.1 wanted.1)
  else DottedPath.endsWith e.1 suffix

/-- The paths of the symbols that the end of a path may mean. -/
def candidates (p : Project) (kind : TagKind) (suffix : String) : List String :=
  let wanted := DottedPath.relativeTo p.rootName (Text.trimString suffix)
  if wanted.isEmpty then [] else (p.symbols.entries.filter (fits kind wanted)).map Prod.fst

/-- A Markdown link. -/
def markdownLink (label url : String) : String := "[" ++ label ++ "](" ++ url ++ ")"

/-- A tag of a known kind in the text of the symbol `parent`. -/
def renderTarget (p : Project) (parent : String) (kind : TagKind) (link : String) (t : Target) :
    Noted String :=
  if t.path.isEmpty then Noted.found t.label (.unresolvedLink parent link [])
  else if p.isInternal t.path then
    match p.navigationOf t.path with
    | some n => pure (markdownLink t.label (p.navigationLink n))
    | none => Noted.found t.label (.internalReference t.path)
  else
    match p.navigationOf (DottedPath.child p.rootName t.path) with
    | some n => pure (markdownLink t.label (p.navigationLink n))
    | none =>
      match p.externalLinks.get? t.path with
      | some url => pure (markdownLink t.label url)
      | none =>
        match p.candidates kind t.path with
        | [] => Noted.found t.label (.externalReference t.path)
        | cs => Noted.found t.label (.unresolvedLink parent link cs)

/-- A tag in the text of the symbol `parent`. -/
def renderTag (p : Project) (parent : String) (t : Tag) : Noted String :=
  let word := String.ofList t.word
  let target := Target.ofBody t.body
  match TagKind.ofWord? word with
  | none => Noted.found target.label (.unknownTag parent word)
  | some kind => p.renderTarget parent kind (String.ofList t.text) target

/-- A piece of the text of the symbol `parent`. -/
def renderPiece (p : Project) (parent : String) : Piece → Noted (List Char)
  | .plain s => pure s
  | .tag t =>
    let r := p.renderTag parent t
    ⟨r.value.toList, r.findings⟩

/-- The text of the symbol `parent` with its tags rendered. -/
def renderLinks (p : Project) (parent text : String) : Noted String :=
  let r := Noted.each (p.renderPiece parent) (pieces text.toList)
  ⟨String.ofList r.value.flatten, r.findings⟩

end ApiPages.Project
