import ApiPages.Docstring.Section

/-!
# Docstrings

A docstring is cut into runs of lines: free text, and sections that open with a title line at the
margin. Inside fenced code no section opens.

* `normalize` — a docstring without blank lines at its ends, trailing blanks and common indentation.
* `Run`, `runs` — the cut of the lines.
* `Docstring`, `Docstring.parse` — the sections in order, and the faults of those that are dropped.
-/

namespace ApiPages

/-- The lines without blanks at their ends, empty lines around them and common indentation. -/
def normalLines (text : List Char) : List (List Char) :=
  let isEmpty : List Char → Bool := fun l => l == []
  Text.dedent (Text.dropEndWhile isEmpty (((Text.lines text).map Text.trimEnd).dropWhile isEmpty))

/-- The normal form of a docstring. -/
def normalize (text : List Char) : List Char := Text.joinLines (normalLines text)

/-! ## Runs of lines -/

/-- The line opens or closes fenced code. -/
def isFence (l : List Char) : Bool :=
  let s := Text.trimStart l
  ['`', '`', '`'].isPrefixOf s || ['~', '~', '~'].isPrefixOf s

/-- A character of a title after the first. -/
def isTitleChar (c : Char) : Bool := c.isAlphanum || c == ' ' || c == '_' || c == '-'

/-- The title on a line of the form `Title:`. -/
def titleOf? (l : List Char) : Option (List Char) :=
  match l with
  | [] => none
  | c :: s =>
    match s.dropWhile isTitleChar with
    | ':' :: r =>
      if Text.isLetter c && Text.isBlankLine r then some (Text.trim (c :: s.takeWhile isTitleChar))
      else none
    | _ => none

/-- The line belongs to the text of a block: it is indented and not blank. -/
def isBlockText (l : List Char) : Bool := !Text.isBlankLine l && Text.isIndented l

/-- The title of a section that a line opens: the line after it has to be block text. -/
def opens? (l : List Char) (after : List (List Char)) : Option (List Char) :=
  match after with
  | next :: _ => if isBlockText next then titleOf? l else none
  | [] => none

/-- The block at the front of the lines: blank and indented lines, without blank ones at its end. -/
def blockOf (ls : List (List Char)) : List (List Char) :=
  Text.dropEndWhile Text.isBlankLine (ls.takeWhile continuesEntry)

/-- Consecutive lines of a docstring. -/
inductive Run where
  /-- Lines of free text. -/
  | text (ls : List (List Char))
  /-- A title line, its title, and the block under it. -/
  | titled (line title : List Char) (block : List (List Char))
deriving DecidableEq, Repr

/-- The lines of a run. -/
def Run.lines : Run → List (List Char)
  | text ls => ls
  | titled line _ block => line :: block

/-- Puts a line of free text in front of the runs. -/
def consText (l : List Char) : List Run → List Run
  | .text ls :: rs => .text (l :: ls) :: rs
  | rs => .text [l] :: rs

/-- Cuts lines of which the first `owed` belong to a block that is open, with fenced code open or
not. The result is these lines and the runs after them. -/
def runsFrom (fenced : Bool) : (owed : Nat) → List (List Char) → List (List Char) × List Run
  | _, [] => ([], [])
  | owed + 1, l :: ls =>
    let r := runsFrom fenced owed ls
    (l :: r.1, r.2)
  | 0, l :: ls =>
    if isFence l then ([], consText l (runsFrom (!fenced) 0 ls).2)
    else if fenced then ([], consText l (runsFrom fenced 0 ls).2)
    else
      match opens? l ls with
      | some title =>
        let r := runsFrom fenced (blockOf ls).length ls
        ([], .titled l title r.1 :: r.2)
      | none => ([], consText l (runsFrom fenced 0 ls).2)

/-- The runs of the lines of a docstring. -/
def runs (ls : List (List Char)) : List Run := (runsFrom false 0 ls).2

/-! ## Docstrings -/

/-- What a docstring says. -/
structure Docstring where
  /-- The sections in order. -/
  sections : List DocSection
  /-- The faults of the sections that were dropped. -/
  faults : List DocFault
deriving DecidableEq, Repr

/-- Free text without line feeds at its ends, if it is not blank. -/
def textSection? (ls : List (List Char)) : Option DocSection :=
  let isBreak : Char → Bool := fun c => c == '\n'
  let s := Text.dropEndWhile isBreak ((Text.joinLines ls).dropWhile isBreak)
  if Text.isBlankLine s then none else some (.text (String.ofList s))

/-- What a run says: a section, a fault, or nothing. -/
def Run.read : Run → Option (Except DocFault DocSection)
  | text ls => (textSection? ls).map .ok
  | titled _ title block => some (DocSection.read (String.ofList title) (Text.dedent block))

namespace Docstring

/-- The section, if there is one. -/
def section? : Except DocFault DocSection → Option DocSection
  | .ok s => some s
  | .error _ => none

/-- The fault, if there is one. -/
def fault? : Except DocFault DocSection → Option DocFault
  | .ok _ => none
  | .error f => some f

/-- The sections and faults of runs. -/
def ofRuns (rs : List Run) : Docstring where
  sections := (rs.filterMap Run.read).filterMap section?
  faults := (rs.filterMap Run.read).filterMap fault?

/-- Reads a docstring. -/
def parse (text : List Char) : Docstring := ofRuns (runs (Text.lines (normalize text)))

end Docstring

end ApiPages
