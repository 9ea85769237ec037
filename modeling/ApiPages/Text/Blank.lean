/-!
# Blank characters

A character is *blank* when it has the Unicode property `White_Space`. Trimming removes blank
characters from the ends of a text.

* `isBlank` — the property, as a table of its ranges.
* `trimStart`, `trimEnd`, `trim` — a text without its leading blanks, its trailing blanks, or both.
* `isBlankLine` — a text of blanks only.
-/

namespace ApiPages.Text

/-- The ranges of `White_Space`, both ends included. -/
def blankRanges : List (Nat × Nat) :=
  [(0x9, 0xD), (0x20, 0x20), (0x85, 0x85), (0xA0, 0xA0), (0x1680, 0x1680), (0x2000, 0x200A),
    (0x2028, 0x2029), (0x202F, 0x202F), (0x205F, 0x205F), (0x3000, 0x3000)]

/-- The code point of `c` lies in one of `ranges`. -/
def inRanges (ranges : List (Nat × Nat)) (c : Char) : Bool :=
  ranges.any fun r => r.1 ≤ c.toNat && c.toNat ≤ r.2

/-- The character has the property `White_Space`. -/
def isBlank (c : Char) : Bool := inRanges blankRanges c

/-- The text without its longest suffix of characters that satisfy `p`. -/
def dropEndWhile {α : Type} (p : α → Bool) (s : List α) : List α :=
  (s.reverse.dropWhile p).reverse

/-- The text without leading blanks. -/
def trimStart (s : List Char) : List Char := s.dropWhile isBlank

/-- The text without trailing blanks. -/
def trimEnd (s : List Char) : List Char := dropEndWhile isBlank s

/-- The text without leading and trailing blanks. -/
def trim (s : List Char) : List Char := trimEnd (trimStart s)

/-- The text has no character but blanks. -/
def isBlankLine (s : List Char) : Bool := s.all isBlank

/-- The text starts with a blank. -/
def isIndented : List Char → Bool
  | [] => false
  | c :: _ => isBlank c

/-- A string without leading and trailing blanks. -/
def trimString (s : String) : String := String.ofList (trim s.toList)

/-! ## Small facts -/

@[simp] theorem isBlankLine_nil : isBlankLine [] = true := rfl

@[simp] theorem isBlankLine_cons (c : Char) (s : List Char) :
    isBlankLine (c :: s) = (isBlank c && isBlankLine s) := rfl

end ApiPages.Text
