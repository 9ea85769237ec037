import ApiPages.Text.Indent
import ApiPages.Text.Word

/-!
# Sections of docstrings

A section has a title line and an indented block. Its title says what the block holds: parameters, a
description of the returned value, or any other remark.

* `DocParameter`, `DocSection` — what a section says.
* `DocFault` — why a section is dropped.
* `DocSection.read` — the section of a title and a block.
* `ParameterItem.match?`, `returnType?` — the forms of the lines in a block.
-/

namespace ApiPages

/-- A documented parameter. -/
structure DocParameter where
  name : String
  /-- The type that the docstring gives. -/
  typeText : Option String
  description : String
deriving DecidableEq, Repr

/-- A part of a docstring. -/
inductive DocSection where
  /-- Free text. -/
  | text (text : String)
  /-- A remark under a title; the tag is the title in a form fit for look-ups. -/
  | admonition (title : String) (tag : Option String) (body : String)
  | parameters (items : List DocParameter)
  | returns (typeText : Option String) (description : String)
deriving DecidableEq, Repr

/-- Why a section is dropped. -/
inductive DocFault where
  /-- A line of a parameter section is no parameter. -/
  | malformedEntry (title line : String)
  /-- A section on the returned value says nothing. -/
  | emptySection (title : String)
deriving DecidableEq, Repr

/-- The text of a fault. -/
def DocFault.message : DocFault → String
  | malformedEntry title line => "malformed entry in " ++ title ++ " section: '" ++ line ++ "'"
  | emptySection title => title ++ " section has no description"

/-- What follows optional blanks and a colon. -/
def afterColon? (s : List Char) : Option (List Char) :=
  match Text.trimStart s with
  | ':' :: r => some r
  | _ => none

/-! ## Parameters -/

/-- The first line of a parameter: up to two stars and an identifier, a type in parentheses or none,
a colon, and the start of the description. -/
structure ParameterItem where
  name : List Char
  typeText : Option (List Char)
  description : List Char
deriving DecidableEq, Repr

namespace ParameterItem

/-- The stars in front of a name, two at most, and the rest. -/
def stars : List Char → List Char × List Char
  | '*' :: '*' :: s => (['*', '*'], s)
  | '*' :: s => (['*'], s)
  | s => ([], s)

/-- The name of a parameter and the rest of the line. -/
def name? (l : List Char) : Option (List Char × List Char) :=
  match (stars l).2 with
  | [] => none
  | c :: s =>
    if Text.isIdentifierStart c then
      some ((stars l).1 ++ c :: s.takeWhile Text.isIdentifierRest,
        s.dropWhile Text.isIdentifierRest)
    else none

/-- The parameter that a line starts. -/
def match? (l : List Char) : Option ParameterItem :=
  match name? l with
  | none => none
  | some (name, r) =>
    match Text.trimStart r with
    | '(' :: r =>
      match Text.splitFirst ')' r with
      | some (typeText, r) => (afterColon? r).map fun d => ⟨name, some typeText, d⟩
      | none => none
    | r => (afterColon? r).map fun d => ⟨name, none, d⟩

end ParameterItem

/-- The line continues the entry above it: it is blank or indented. -/
def continuesEntry (l : List Char) : Bool := Text.isBlankLine l || Text.isIndented l

/-- A description that starts on the line of its entry and goes on below. -/
def joinDescription (first : List Char) (continuation : List (List Char)) : String :=
  String.ofList (Text.trim (Text.joinLines (first :: Text.dedent continuation)))

/-- The parameter of a first line and the lines below it. -/
def ParameterItem.complete (i : ParameterItem) (continuation : List (List Char)) :
    DocParameter where
  name := String.ofList i.name
  typeText := i.typeText.map fun a => String.ofList (Text.trim a)
  description := joinDescription (Text.trim i.description) continuation

/-- The entries of a block: every line that starts one, with the lines that continue it. Lines above
the first entry that continue nothing are left out. -/
def entriesOf : List (List Char) → List (List Char) × List (List Char × List (List Char))
  | [] => ([], [])
  | l :: ls =>
    let below := entriesOf ls
    if continuesEntry l then (l :: below.1, below.2) else ([], (l, below.1) :: below.2)

/-- The parameters of a block; the first entry that is no parameter is its fault. -/
def readParameters (title : String) (block : List (List Char)) :
    Except DocFault (List DocParameter) :=
  (entriesOf block).2.mapM fun e =>
    match ParameterItem.match? e.1 with
    | some i => .ok (i.complete e.2)
    | none => .error (.malformedEntry title (String.ofList e.1))

/-! ## Returned values -/

/-- The character may stand in the name of a type. -/
def isTypeChar (c : Char) : Bool := Text.isWord c || c == '.' || c == '|'

/-- The type and the description on the first line about a returned value: the name of a type, with
one bracketed part or none, and a colon between the two. -/
def returnType? (l : List Char) : Option (List Char × List Char) :=
  let name := l.takeWhile isTypeChar
  if name = [] then none
  else
    match l.dropWhile isTypeChar with
    | '[' :: r =>
      match Text.splitFirst ']' r with
      | some (inner, r) => (afterColon? r).map fun d => (name ++ '[' :: inner ++ [']'], d)
      | none => none
    | r => (afterColon? r).map fun d => (name, d)

/-- The description of the returned value in a block. -/
def readReturns (title : String) (block : List (List Char)) : Except DocFault DocSection :=
  let first := block.headD []
  let typed := returnType? first
  let description :=
    joinDescription (Text.trim ((typed.map Prod.snd).getD first)) block.tail
  if description.isEmpty then .error (.emptySection title)
  else .ok (.returns (typed.map fun t => String.ofList t.1) description)

/-! ## Sections -/

/-- The title in lower case with dashes for blanks, if anything is left. -/
def tagOf (title : String) : Option String :=
  let tag := Text.joinWith ['-'] ((Text.words title.toList).map fun w => w.map Char.toLower)
  if tag = [] then none else some (String.ofList tag)

namespace DocSection

/-- The titles of parameter sections. -/
def parameterTitles : List String := ["args", "arguments", "params", "parameters"]

/-- The titles of sections on the returned value. -/
def returnTitles : List String := ["return", "returns"]

/-- The section of a title and a block. -/
def read (title : String) (block : List (List Char)) : Except DocFault DocSection :=
  let word := String.ofList (title.toList.map Char.toLower)
  if word ∈ parameterTitles then (readParameters title block).map .parameters
  else if word ∈ returnTitles then readReturns title block
  else .ok (.admonition title (tagOf title) (String.ofList (Text.joinLines block)))

end DocSection

end ApiPages
