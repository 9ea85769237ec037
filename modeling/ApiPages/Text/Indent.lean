import ApiPages.Text.Lines

/-!
# Indentation

The indentation of a line is the length of its leading blanks in UTF-8 bytes. Lines are moved to the
left together by the smallest indentation of those that are not blank.

* `indentation` — the indentation of a line.
* `stripIndent` — a line without some bytes of its indentation. Where that would cut a character in
  two, or the line has less, all leading blanks go.
* `dedent` — lines moved to the left together.
-/

namespace ApiPages.Text

/-- The number of bytes of a text in UTF-8. -/
def byteLength (s : List Char) : Nat := s.foldr (fun c n => c.utf8Size + n) 0

/-- The length of the leading blanks in bytes. -/
def indentation (l : List Char) : Nat := byteLength (l.takeWhile isBlank)

/-- The text after its first `n` bytes, unless that is inside a character or behind the end. -/
def dropBytes? : (n : Nat) → List Char → Option (List Char)
  | 0, s => some s
  | _ + 1, [] => none
  | n + 1, c :: s => if c.utf8Size ≤ n + 1 then dropBytes? (n + 1 - c.utf8Size) s else none

/-- The line without `indent` bytes of indentation. -/
def stripIndent (indent : Nat) (l : List Char) : List Char :=
  if indent ≤ indentation l then (dropBytes? indent l).getD (trimStart l) else trimStart l

/-- The smallest indentation of the lines that are not blank. -/
def commonIndent (ls : List (List Char)) : Nat :=
  (((ls.filter fun l => !isBlankLine l).map indentation).min?).getD 0

/-- The lines moved to the left by their common indentation. -/
def dedent (ls : List (List Char)) : List (List Char) := ls.map (stripIndent (commonIndent ls))

end ApiPages.Text
