import ApiPages.Toml.Scalar

/-!
# TOML documents

A document is a list of statements, one a line: headers open tables, and assignments fill the table
that is open.

* `Toml.key`, `Toml.value` — dotted keys and values.
* `Toml.Statement`, `Toml.statements` — the statements of a text.
* `Toml.parse?` — the table of a document.
-/

namespace ApiPages.Toml

/-! ## Keys -/

/-- A character of a key without quotes. -/
def isBareKeyChar (c : Char) : Bool := c.isAlphanum || c == '_' || c == '-'

/-- One segment of a key. -/
def simpleKey (s : List Char) : Option (String × List Char) :=
  match s with
  | '"' :: r => (basicString r).map fun p => (String.ofList p.1, p.2)
  | '\'' :: r => (literalString r).map fun p => (String.ofList p.1, p.2)
  | _ =>
    let name := s.takeWhile isBareKeyChar
    if name = [] then none else some (String.ofList name, s.dropWhile isBareKeyChar)

/-- The segments of a key, with blanks around each. -/
def keySegments : (fuel : Nat) → List Char → Option (List String × List Char)
  | 0, _ => none
  | fuel + 1, s =>
    match simpleKey (skipWs s) with
    | none => none
    | some (k, r) =>
      match skipWs r with
      | '.' :: r => (keySegments fuel r).map fun p => (k :: p.1, p.2)
      | r => some ([k], r)

/-- How deep keys and values may nest. -/
def nestingLimit : Nat := 80

/-- A key: the segments in front, the last one, and the rest of the text. -/
def key (s : List Char) : Option (List String × String × List Char) :=
  match keySegments (s.length + 1) s with
  | none => none
  | some (ks, r) =>
    match ks.getLast? with
    | some last => if ks.length < nestingLimit then some (ks.dropLast, last, r) else none
    | none => none

/-! ## Values -/

/-- The rest after a comment at the front of a text. -/
def skipComment (s : List Char) : List Char :=
  match s with
  | '#' :: r => r.dropWhile isCommentChar
  | _ => s

/-- The rest after blanks, comments and line ends. -/
def skipTrivia : (fuel : Nat) → List Char → List Char
  | 0, s => s
  | fuel + 1, s =>
    match skipWs s with
    | '#' :: r => skipTrivia fuel (r.dropWhile isCommentChar)
    | r =>
      match newline? r with
      | some r => skipTrivia fuel r
      | none => r

/-- The rest after blanks, comments and line ends, wherever they end. -/
def skipAll (s : List Char) : List Char := skipTrivia (s.length + 1) s

mutual

/-- The value at the front of a text, in at most `depth` further arrays and tables. -/
def value (fuel depth : Nat) (s : List Char) : Option (Toml × List Char) :=
  match fuel with
  | 0 => none
  | fuel + 1 =>
    match s with
    | [] => none
    | '"' :: _ => (stringLiteral s).map fun p => (.str (String.ofList p.1), p.2)
    | '\'' :: _ => (stringLiteral s).map fun p => (.str (String.ofList p.1), p.2)
    | 't' :: 'r' :: 'u' :: 'e' :: r => some (.bool true, r)
    | 'f' :: 'a' :: 'l' :: 's' :: 'e' :: r => some (.bool false, r)
    | '[' :: r =>
      match depth with
      | 0 => none
      | depth + 1 => (elements fuel depth r).map fun p => (.arr p.1, p.2)
    | '{' :: r =>
      match depth with
      | 0 => none
      | depth + 1 =>
        match skipWs r with
        | '}' :: r => some (.table .inlined [], r)
        | _ => (pairs fuel depth [] r).map fun p => (.table .inlined p.1, p.2)
    | s => numberLiteral s

/-- The elements of an array up to its closing bracket; a comma may follow the last one. -/
def elements (fuel depth : Nat) (s : List Char) : Option (List Toml × List Char) :=
  match fuel with
  | 0 => none
  | fuel + 1 =>
    match skipAll s with
    | ']' :: r => some ([], r)
    | s =>
      match value fuel depth s with
      | none => none
      | some (v, r) =>
        match skipAll r with
        | ',' :: r => (elements fuel depth r).map fun p => (v :: p.1, p.2)
        | ']' :: r => some ([v], r)
        | _ => none

/-- The entries of a table in braces, added to those before, up to its closing brace. -/
def pairs (fuel depth : Nat) (es : Entries) (s : List Char) : Option (Entries × List Char) :=
  match fuel with
  | 0 => none
  | fuel + 1 =>
    match key s with
    | some (path, last, '=' :: r) =>
      match value fuel depth (skipWs r) with
      | none => none
      | some (v, r) =>
        match insertDotted .inlined path last v es with
        | none => none
        | some es =>
          match skipWs r with
          | ',' :: r => pairs fuel depth es r
          | '}' :: r => some (es, r)
          | _ => none
    | _ => none

end

/-! ## Statements -/

/-- A line of a document that says something. -/
inductive Statement where
  /-- `[path.key]` -/
  | openTable (path : List String) (key : String)
  /-- `[[path.key]]` -/
  | openListed (path : List String) (key : String)
  /-- `path.key = value` -/
  | assign (path : List String) (key : String) (value : Toml)

/-- The rest after the end of a line: blanks, a comment, and a line end or the end of the text. -/
def endOfLine (s : List Char) : Option (List Char) :=
  match skipComment (skipWs s) with
  | [] => some []
  | r => newline? r

/-- The statement at the front of a text, and the rest after its line. -/
def statement (s : List Char) : Option (Statement × List Char) :=
  match s with
  | '[' :: '[' :: r =>
    match key r with
    | some (path, last, ']' :: ']' :: r) =>
      (endOfLine r).map fun r => (.openListed path last, r)
    | _ => none
  | '[' :: r =>
    match key r with
    | some (path, last, ']' :: r) => (endOfLine r).map fun r => (.openTable path last, r)
    | _ => none
  | _ =>
    match key s with
    | some (path, last, '=' :: r) =>
      let r := skipWs r
      (value (2 * r.length + 2) (nestingLimit - 1) r).bind fun p =>
        (endOfLine p.2).map fun r => (.assign path last p.1, r)
    | _ => none

/-- The statements of a text. -/
def statements : (fuel : Nat) → List Char → Option (List Statement)
  | 0, _ => none
  | fuel + 1, s =>
    match skipWs s with
    | [] => some []
    | '#' :: r => (endOfLine ('#' :: r)).bind (statements fuel)
    | r =>
      match newline? r with
      | some r => statements fuel r
      | none =>
        (statement r).bind fun p => (statements fuel p.2).map fun rest => p.1 :: rest

/-- Carries out statements on a table, with the path of the table that is open. -/
def runStatements (header : List String) (es : Entries) : List Statement → Option Entries
  | [] => some es
  | .openTable path key :: rest =>
    (openTable path key es).bind fun es => runStatements (path ++ [key]) es rest
  | .openListed path key :: rest =>
    (openListed path key es).bind fun es => runStatements (path ++ [key]) es rest
  | .assign path key v :: rest =>
    (assign header path key v es).bind fun es => runStatements header es rest

/-- The text without a byte order mark. -/
def dropMark : List Char → List Char
  | c :: s => if c.toNat = 0xFEFF then s else c :: s
  | [] => []

/-- The table of a document. -/
def parse? (text : String) : Option Entries :=
  let s := dropMark text.toList
  (statements (s.length + 1) s).bind (runStatements [] [])

end ApiPages.Toml
