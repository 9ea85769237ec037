import ApiPages.Text.Blank
import ApiPages.Text.WordRanges

/-!
# Word characters

A *word character* is a letter, a mark, a decimal digit, a connector such as `_`, or a joiner, in
the sense of the Unicode properties. ASCII is decided without the tables.

* `isWord` — the character is a word character.
-/

namespace ApiPages.Text

/-- A letter, mark, decimal digit, connector punctuation or join control. -/
def isWord (c : Char) : Bool :=
  if c.toNat < 128 then c.isAlphanum || c == '_'
  else inRanges wordRangesLow c || inRanges wordRangesBasic c || inRanges wordRangesSupplementary c

/-- An ASCII letter. -/
def isLetter (c : Char) : Bool := c.isAlpha

/-- An ASCII letter, an ASCII digit or `_`: a character of an identifier after the first. -/
def isIdentifierRest (c : Char) : Bool := c.isAlphanum || c == '_'

/-- An ASCII letter or `_`: the first character of an identifier. -/
def isIdentifierStart (c : Char) : Bool := c.isAlpha || c == '_'

end ApiPages.Text
