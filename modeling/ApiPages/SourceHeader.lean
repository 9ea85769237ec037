import ApiPages.Text.Lines

/-!
# Headers of functions and classes

The declaration of a function or a class is the part of its source up to the colon that ends its
header: the first colon outside brackets and string literals.

* `HeaderScan`, `headerFrom?`, `headerOf` — the scan for that colon.
* `splitAtKeyword?` — the source before and from the first line that starts with a keyword.
* `functionDeclaration` — the header of a function, without decorators.
* `classDeclaration` — the header of a class with its decorators, cut before its docstring if it has
  one.
-/

namespace ApiPages

/-- Where a scan stands. -/
inductive HeaderScan where
  /-- Outside string literals, inside so many brackets. -/
  | code (depth : Nat)
  /-- Inside a string literal; the next character may be escaped. -/
  | quoted (depth : Nat) (quote : Char) (escaped : Bool)
deriving DecidableEq, Repr

namespace HeaderScan

/-- The scan after a character, or nothing at the colon that ends the header. -/
def step : HeaderScan → Char → Option HeaderScan
  | quoted d q true, _ => some (quoted d q false)
  | quoted d q false, c =>
    if c = '\\' then some (quoted d q true)
    else if c = q then some (code d)
    else some (quoted d q false)
  | code d, c =>
    if c = '\'' || c = '"' then some (quoted d c false)
    else if c = '(' || c = '[' || c = '{' then some (code (d + 1))
    else if c = ')' || c = ']' || c = '}' then some (code (d - 1))
    else if c = ':' && d == 0 then none
    else some (code d)

end HeaderScan

/-- The text before the colon that ends the header, if there is one. -/
def headerFrom? (scan : HeaderScan) : List Char → Option (List Char)
  | [] => none
  | c :: s =>
    match scan.step c with
    | none => some []
    | some next => (headerFrom? next s).map (c :: ·)

/-- The text before the colon that ends the header, or all of it. -/
def headerOf (s : List Char) : List Char := (headerFrom? (.code 0) s).getD s

/-- The line starts with one of the keywords after its leading blanks. -/
def startsWithKeyword (keywords : List (List Char)) (l : List Char) : Bool :=
  keywords.any fun k => k.isPrefixOf (Text.trimStart l)

/-- The source before the keyword of the first line that starts with one, and from there on. -/
def splitAtKeyword? (keywords : List (List Char)) :
    List (List Char) → Option (List Char × List Char)
  | [] => none
  | l :: ls =>
    if startsWithKeyword keywords l then
      some (l.takeWhile Text.isBlank, Text.trimStart l ++ ls.flatten)
    else (splitAtKeyword? keywords ls).map fun p => (l ++ p.1, p.2)

/-- The keywords of functions. -/
def functionKeywords : List (List Char) := ["async def ".toList, "def ".toList]

/-- The keyword of classes. -/
def classKeywords : List (List Char) := ["class ".toList]

/-- The header of a function; a source without one is taken whole. -/
def functionDeclaration (source : List Char) : List Char :=
  match splitAtKeyword? functionKeywords (Text.linesInclusive source) with
  | none => Text.trim source
  | some (_, rest) => Text.trimEnd (headerOf rest)

/-- The source before the first triple quote. -/
def beforeTripleQuote? : List Char → Option (List Char)
  | [] => none
  | c :: s =>
    if ['"', '"', '"'].isPrefixOf (c :: s) || ['\'', '\'', '\''].isPrefixOf (c :: s) then some []
    else (beforeTripleQuote? s).map (c :: ·)

/-- A letter that may stand in front of a string literal. -/
def isLiteralLetter (c : Char) : Bool := "rRuUbBfF".toList.contains c

/-- The source up to the docstring of a class, without the letters in front of its quotes. -/
def beforeDocstring? (source : List Char) : Option (List Char) :=
  (beforeTripleQuote? source).map (Text.dropEndWhile isLiteralLetter)

/-- The source up to the colon that ends the header of a class. -/
def beforeClassColon (source : List Char) : List Char :=
  match splitAtKeyword? classKeywords (Text.linesInclusive source) with
  | some (before, rest) => before ++ headerOf rest
  | none => headerOf source

/-- The text without a colon at its end. -/
def dropColon (s : List Char) : List Char := (Text.beforeEnd [':'] s).getD s

/-- The header of a class with what stands in front of it. -/
def classDeclaration (source : List Char) (documented : Bool) : List Char :=
  let head :=
    match if documented then beforeDocstring? source else none with
    | some before => before
    | none => beforeClassColon source
  Text.trimEnd (dropColon (Text.trimEnd head))

end ApiPages
