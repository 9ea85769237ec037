import ApiPages.DottedPath
import ApiPages.Text.Word

/-!
# Cross-link tags

A tag in a text has the form ``:kind:`target` ``. The target is a path, or a label followed by a
path in angle brackets.

* `TagKind` — the known kinds of tags.
* `Tag`, `Tag.match?` — a tag, and the tag at the front of a text.
* `Piece`, `pieces` — a text cut into its tags and what stands between them.
* `Target`, `Target.ofBody` — the label and the path of a tag.
-/

namespace ApiPages

/-- The known kinds of tags. -/
inductive TagKind where
  | module
  | classType
  | function
  | attr
  | method
  | global
deriving DecidableEq, Repr

namespace TagKind

/-- The kind of a word. -/
def ofWord? : String → Option TagKind
  | "mod" => some module
  | "class" => some classType
  | "func" => some function
  | "attr" => some attr
  | "meth" => some method
  | "glob" => some global
  | _ => none

/-- The tag is for members of a class. -/
def isMember : TagKind → Bool
  | attr => true
  | method => true
  | _ => false

end TagKind

/-- A tag of a text. -/
structure Tag where
  /-- The word between the colons. -/
  word : List Char
  /-- What stands between the backquotes. -/
  body : List Char
deriving DecidableEq, Repr

namespace Tag

/-- The tag as it stands in a text. -/
def text (t : Tag) : List Char := ':' :: t.word ++ ':' :: '`' :: t.body ++ ['`']

/-- The tag at the front of a text: a colon, word characters, a colon, and a body in backquotes. -/
def match? : List Char → Option Tag
  | ':' :: s =>
    let word := s.takeWhile Text.isWord
    match s.dropWhile Text.isWord with
    | ':' :: '`' :: r =>
      let body := r.takeWhile (· != '`')
      if word = [] || body = [] || r.dropWhile (· != '`') = [] then none else some ⟨word, body⟩
    | _ => none
  | _ => none

end Tag

/-- A part of a text. -/
inductive Piece where
  /-- Characters that belong to no tag. -/
  | plain (s : List Char)
  | tag (t : Tag)
deriving DecidableEq, Repr

/-- Puts a character in front of the pieces. -/
def consPiece (c : Char) : List Piece → List Piece
  | .plain s :: ps => .plain (c :: s) :: ps
  | ps => .plain [c] :: ps

/-- The pieces of a text after its first `skip` characters. -/
def piecesFrom : (skip : Nat) → List Char → List Piece
  | _, [] => []
  | skip + 1, _ :: s => piecesFrom skip s
  | 0, c :: s =>
    match Tag.match? (c :: s) with
    | some t => .tag t :: piecesFrom (t.text.length - 1) s
    | none => consPiece c (piecesFrom 0 s)

/-- A text cut into its tags, taken from left to right, and what stands between them. -/
def pieces (s : List Char) : List Piece := piecesFrom 0 s

/-- The label and the path of a tag. -/
structure Target where
  label : String
  path : String
deriving DecidableEq, Repr

namespace Target

/-- The text before the first bracketed part that is not empty, and that part. -/
def bracketed? : List Char → Option (List Char × List Char)
  | [] => none
  | c :: s =>
    let inner := s.takeWhile (· != '>')
    if c = '<' && inner != [] && s.dropWhile (· != '>') != [] then some ([], inner)
    else (bracketed? s).map fun p => (c :: p.1, p.2)

/-- The label and the path in the body of a tag. Without a label of its own a tag is labelled by the
last segment of its path. -/
def ofBody (body : List Char) : Target :=
  let parts := (bracketed? body).getD ([], body)
  let label := Text.trim parts.1
  let path := String.ofList (Text.trim parts.2)
  ⟨if label = [] then DottedPath.lastSegment path else String.ofList label, path⟩

end Target

end ApiPages
