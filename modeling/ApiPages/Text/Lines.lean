import ApiPages.Text.Blank

/-!
# Splitting and joining

Texts are cut at a separator character and put together again.

* `splitOn`, `joinWith` — cut at every separator, and put separators between pieces.
* `lines` — the lines of a text: cut at line feeds, one carriage return before a line feed dropped,
  and no empty line after a final line feed.
* `linesInclusive` — the same cut with every line keeping its line feed.
* `splitFirst`, `splitLast` — cut at the first or at the last separator only.
-/

namespace ApiPages.Text

/-- Puts a character in front of the first piece. -/
def consFirst {α : Type} (c : α) : List (List α) → List (List α)
  | [] => [[c]]
  | p :: ps => (c :: p) :: ps

/-- The pieces between separators; there is always at least one. -/
def splitOn (sep : Char) : List Char → List (List Char)
  | [] => [[]]
  | c :: s => if c = sep then [] :: splitOn sep s else consFirst c (splitOn sep s)

/-- The pieces with `sep` between neighbours. -/
def joinWith (sep : List Char) : List (List Char) → List Char
  | [] => []
  | [p] => p
  | p :: q :: ps => p ++ sep ++ joinWith sep (q :: ps)

/-- The pieces one per line. -/
def joinLines (ps : List (List Char)) : List Char := joinWith ['\n'] ps

/-- The lines with their line feeds; the last one may have none. -/
def linesInclusive : List Char → List (List Char)
  | [] => []
  | c :: s => if c = '\n' then [c] :: linesInclusive s else consFirst c (linesInclusive s)

/-- A line without its line end: a line feed and one carriage return before it. -/
def dropLineEnd (l : List Char) : List Char :=
  match l.reverse with
  | '\n' :: '\r' :: r => r.reverse
  | '\n' :: r => r.reverse
  | _ => l

/-- The lines of a text, without line ends. -/
def lines (s : List Char) : List (List Char) := (linesInclusive s).map dropLineEnd

/-- The parts before and after the first separator. -/
def splitFirst (sep : Char) : List Char → Option (List Char × List Char)
  | [] => none
  | c :: s => if c = sep then some ([], s) else (splitFirst sep s).map fun p => (c :: p.1, p.2)

/-- The parts before and after the last separator. -/
def splitLast (sep : Char) : List Char → Option (List Char × List Char)
  | [] => none
  | c :: s =>
    match splitLast sep s with
    | some p => some (c :: p.1, p.2)
    | none => if c = sep then some ([], s) else none

/-- The maximal runs of characters that are not blank. -/
def words (s : List Char) : List (List Char) :=
  go [] s
where
  /-- `cur` is the word being read. -/
  go (cur : List Char) : List Char → List (List Char)
  | [] => if cur = [] then [] else [cur]
  | c :: s =>
    if isBlank c then (if cur = [] then go [] s else cur :: go [] s) else go (cur ++ [c]) s

/-- The rest of `s` after `p`, if `s` starts with `p`. -/
def afterStart (p : List Char) (s : List Char) : Option (List Char) :=
  if p.isPrefixOf s then some (s.drop p.length) else none

/-- The part of `s` before `p`, if `s` ends with `p`. -/
def beforeEnd (p : List Char) (s : List Char) : Option (List Char) :=
  (afterStart p.reverse s.reverse).map List.reverse

/-- The pieces of a string between separators. -/
def splitString (sep : Char) (s : String) : List String := (splitOn sep s.toList).map String.ofList

/-- The strings with `sep` between neighbours. -/
def joinStrings (sep : String) (ps : List String) : String :=
  String.ofList (joinWith sep.toList (ps.map String.toList))

/-! ## Small facts -/

theorem splitOn_ne_nil (sep : Char) (s : List Char) : splitOn sep s ≠ [] := by
  cases s with
  | nil => simp [splitOn]
  | cons c s =>
    by_cases h : c = sep
    · simp [splitOn, h]
    · rw [splitOn, if_neg h]
      cases splitOn sep s <;> simp [consFirst]

theorem joinWith_consFirst (sep : List Char) (c : Char) (ps : List (List Char)) :
    joinWith sep (consFirst c ps) = c :: joinWith sep ps := by
  match ps with
  | [] => rfl
  | [p] => rfl
  | p :: q :: r => simp [consFirst, joinWith]

/-- Joining with the separator that was split at gives the text back. -/
theorem joinWith_splitOn (sep : Char) (s : List Char) : joinWith [sep] (splitOn sep s) = s := by
  induction s with
  | nil => rfl
  | cons c s ih =>
    by_cases h : c = sep
    · rw [splitOn, if_pos h]
      cases hs : splitOn sep s with
      | nil => exact absurd hs (splitOn_ne_nil sep s)
      | cons p ps => rw [hs] at ih; simp [joinWith, ih, h]
    · rw [splitOn, if_neg h, joinWith_consFirst, ih]

theorem flatten_consFirst {α : Type} (c : α) (ps : List (List α)) :
    (consFirst c ps).flatten = c :: ps.flatten := by
  cases ps <;> simp [consFirst]

/-- The lines with their line feeds make up the text. -/
theorem flatten_linesInclusive (s : List Char) : (linesInclusive s).flatten = s := by
  induction s with
  | nil => rfl
  | cons c s ih =>
    by_cases h : c = '\n'
    · simp [linesInclusive, h, ih]
    · rw [linesInclusive, if_neg h, flatten_consFirst, ih]

end ApiPages.Text
