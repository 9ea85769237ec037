import ApiPages.Json.Basic

/-!
# Printing JSON

The text of a value, either on one line or with one element a line. A quote, a backslash and the
control characters below U+0020 are escaped; every other character stands for itself.

* `Json.escapeChar`, `Json.quote` — a character inside a string literal, and the literal.
* `Json.pretty` — indented text: every element and field on a line of its own, empty arrays and
  objects closed at once, `": "` after a name.
* `Json.compact` — text without blanks.
-/

namespace ApiPages.Json

/-- The digit of a number below sixteen, in lower case. -/
def hexDigit (n : Nat) : Char :=
  if n < 10 then Char.ofNat ('0'.toNat + n) else Char.ofNat ('a'.toNat + (n - 10))

/-- A character as it stands in a string literal. -/
def escapeChar (c : Char) : List Char :=
  if c = '"' then ['\\', '"']
  else if c = '\\' then ['\\', '\\']
  else if c = '\x08' then ['\\', 'b']
  else if c = '\x0c' then ['\\', 'f']
  else if c = '\n' then ['\\', 'n']
  else if c = '\r' then ['\\', 'r']
  else if c = '\t' then ['\\', 't']
  else if c.toNat < 0x20 then
    ['\\', 'u', '0', '0', hexDigit (c.toNat / 16), hexDigit (c.toNat % 16)]
  else [c]

/-- The string literal of a text. -/
def quote (s : String) : List Char := '"' :: s.toList.flatMap escapeChar ++ ['"']

/-- The decimal digits of a number. -/
def digits (n : Nat) : List Char := Nat.toDigits 10 n

/-- A line end and the indentation of the next line. -/
def newline (indent level : Nat) : List Char := '\n' :: List.replicate (indent * level) ' '

/-- The literal of a value that is neither an array nor an object. -/
def scalar : Json → List Char
  | .bool true => ['t', 'r', 'u', 'e']
  | .bool false => ['f', 'a', 'l', 's', 'e']
  | .nat n => digits n
  | .number literal => literal
  | .str s => quote s
  | _ => ['n', 'u', 'l', 'l']

mutual

/-- The indented text of a value whose lines start at `level`. -/
def prettyAt (indent level : Nat) : Json → List Char
  | .arr [] => ['[', ']']
  | .arr (x :: xs) =>
    '[' :: newline indent (level + 1) ++ prettyAt indent (level + 1) x
      ++ prettyElements indent level xs
  | .obj [] => ['{', '}']
  | .obj ((k, x) :: fs) =>
    '{' :: newline indent (level + 1) ++ quote k ++ [':', ' '] ++ prettyAt indent (level + 1) x
      ++ prettyFields indent level fs
  | .null => scalar .null
  | .bool b => scalar (.bool b)
  | .nat n => scalar (.nat n)
  | .number l => scalar (.number l)
  | .str s => scalar (.str s)
  | .unreadable => scalar .unreadable

/-- The elements after the first, and the end of the array. -/
def prettyElements (indent level : Nat) : List Json → List Char
  | [] => newline indent level ++ [']']
  | x :: xs =>
    ',' :: newline indent (level + 1) ++ prettyAt indent (level + 1) x
      ++ prettyElements indent level xs

/-- The fields after the first, and the end of the object. -/
def prettyFields (indent level : Nat) : List (String × Json) → List Char
  | [] => newline indent level ++ ['}']
  | (k, x) :: fs =>
    ',' :: newline indent (level + 1) ++ quote k ++ [':', ' '] ++ prettyAt indent (level + 1) x
      ++ prettyFields indent level fs

end

/-- The text of a value with `indent` blanks a level. -/
def pretty (indent : Nat) (j : Json) : String := String.ofList (prettyAt indent 0 j)

mutual

/-- The characters of a value on one line. -/
def compactChars : Json → List Char
  | .arr [] => ['[', ']']
  | .arr (x :: xs) => '[' :: compactChars x ++ compactElements xs
  | .obj [] => ['{', '}']
  | .obj ((k, x) :: fs) => '{' :: quote k ++ ':' :: compactChars x ++ compactFields fs
  | .null => scalar .null
  | .bool b => scalar (.bool b)
  | .nat n => scalar (.nat n)
  | .number l => scalar (.number l)
  | .str s => scalar (.str s)
  | .unreadable => scalar .unreadable

/-- The elements after the first, and the end of the array. -/
def compactElements : List Json → List Char
  | [] => [']']
  | x :: xs => ',' :: compactChars x ++ compactElements xs

/-- The fields after the first, and the end of the object. -/
def compactFields : List (String × Json) → List Char
  | [] => ['}']
  | (k, x) :: fs => ',' :: quote k ++ ':' :: compactChars x ++ compactFields fs

end

/-- The text of a value on one line. -/
def compact (j : Json) : String := String.ofList (compactChars j)

end ApiPages.Json
