import ApiPages.Decimal
import ApiPages.Toml.Basic

/-!
# Scalars of TOML

Readers of strings, numbers and moments. Each gives the value at the front of a text and the rest.

* `Toml.basicString`, `Toml.longBasicString`, `Toml.literalString`, `Toml.longLiteralString` — the
  four forms of strings, after their opening quotes.
* `Toml.integerLiteral`, `Toml.floatLiteral` — numbers; integers have 64 bits, digits may be grouped
  by `_`.
* `Toml.momentLiteral` — dates and times, brought to normal form.
-/

namespace ApiPages.Toml

/-- A blank inside a line. -/
def isWs (c : Char) : Bool := c = ' ' || c = '\t'

/-- The text from its first character that is not a blank of its line. -/
def skipWs (s : List Char) : List Char := s.dropWhile isWs

/-- The rest after a line end. -/
def newline? : List Char → Option (List Char)
  | '\n' :: r => some r
  | '\r' :: '\n' :: r => some r
  | _ => none

/-- A character of a comment; also the characters of strings, before their own exceptions. -/
def isCommentChar (c : Char) : Bool :=
  c = '\t' || (0x20 ≤ c.toNat && c.toNat ≤ 0x7E) || 0x80 ≤ c.toNat

/-! ## Strings -/

/-- A character that stands for itself between double quotes. -/
def isBasicChar (c : Char) : Bool := isCommentChar c && c != '"' && c != '\\'

/-- A character that stands for itself between single quotes. -/
def isLiteralChar (c : Char) : Bool := isCommentChar c && c != '\''

/-- The character that a one-letter escape stands for. -/
def escapeLetter? : Char → Option Char
  | 'b' => some '\x08'
  | 't' => some '\t'
  | 'n' => some '\n'
  | 'f' => some '\x0c'
  | 'r' => some '\r'
  | '"' => some '"'
  | '\\' => some '\\'
  | _ => none

/-- The character with a number given by hexadecimal digits. -/
def codePoint? (ds : List Char) : Option Char :=
  if ds.all (isDigitOf 16) then
    let n := digitsValue 16 ds
    if n < 0xD800 || (0xE000 ≤ n && n < 0x110000) then some (Char.ofNat n) else none
  else none

/-- Puts a character in front of what was read. -/
def consRead (c : Char) (p : List Char × List Char) : List Char × List Char := (c :: p.1, p.2)

/-- The text up to a double quote, and the rest. -/
def basicString : List Char → Option (List Char × List Char)
  | [] => none
  | '"' :: r => some ([], r)
  | '\\' :: 'U' :: a :: b :: c :: d :: e :: f :: g :: h :: r =>
    (codePoint? [a, b, c, d, e, f, g, h]).bind fun x => (basicString r).map (consRead x)
  | '\\' :: 'u' :: a :: b :: c :: d :: r =>
    (codePoint? [a, b, c, d]).bind fun x => (basicString r).map (consRead x)
  | '\\' :: e :: r => (escapeLetter? e).bind fun x => (basicString r).map (consRead x)
  | c :: r => if isBasicChar c then (basicString r).map (consRead c) else none

/-- A line ends after these blanks, so that a backslash before them joins lines. -/
def endsLine (s : List Char) : Bool := (newline? (skipWs s)).isSome

/-- The text up to three double quotes, and the rest. Up to two quotes may stand before the closing
ones. While `joining`, blanks and line ends are skipped. -/
def longBasicString : (joining : Bool) → List Char → Option (List Char × List Char)
  | _, [] => none
  | true, ' ' :: r => longBasicString true r
  | true, '\t' :: r => longBasicString true r
  | true, '\n' :: r => longBasicString true r
  | true, '\r' :: '\n' :: r => longBasicString true r
  | _, '"' :: '"' :: '"' :: '"' :: '"' :: r => some (['"', '"'], r)
  | _, '"' :: '"' :: '"' :: '"' :: r => some (['"'], r)
  | _, '"' :: '"' :: '"' :: r => some ([], r)
  | _, '"' :: r => (longBasicString false r).map (consRead '"')
  | _, '\n' :: r => (longBasicString false r).map (consRead '\n')
  | _, '\r' :: '\n' :: r => (longBasicString false r).map (consRead '\n')
  | _, '\\' :: 'U' :: a :: b :: c :: d :: e :: f :: g :: h :: r =>
    (codePoint? [a, b, c, d, e, f, g, h]).bind fun x => (longBasicString false r).map (consRead x)
  | _, '\\' :: 'u' :: a :: b :: c :: d :: r =>
    (codePoint? [a, b, c, d]).bind fun x => (longBasicString false r).map (consRead x)
  | _, '\\' :: e :: r =>
    if endsLine (e :: r) then
      if e = '\r' then
        match r with
        | '\n' :: r => longBasicString true r
        | _ => none
      else longBasicString true r
    else (escapeLetter? e).bind fun x => (longBasicString false r).map (consRead x)
  | _, c :: r => if isBasicChar c then (longBasicString false r).map (consRead c) else none

/-- The text up to a single quote, and the rest. -/
def literalString : List Char → Option (List Char × List Char)
  | [] => none
  | '\'' :: r => some ([], r)
  | c :: r => if isLiteralChar c then (literalString r).map (consRead c) else none

/-- The text up to three single quotes, and the rest. Up to two quotes may stand before the closing
ones. -/
def longLiteralString : List Char → Option (List Char × List Char)
  | [] => none
  | '\'' :: '\'' :: '\'' :: '\'' :: '\'' :: r => some (['\'', '\''], r)
  | '\'' :: '\'' :: '\'' :: '\'' :: r => some (['\''], r)
  | '\'' :: '\'' :: '\'' :: r => some ([], r)
  | '\'' :: r => (longLiteralString r).map (consRead '\'')
  | '\n' :: r => (longLiteralString r).map (consRead '\n')
  | '\r' :: '\n' :: r => (longLiteralString r).map (consRead '\n')
  | c :: r => if isLiteralChar c then (longLiteralString r).map (consRead c) else none

/-- The text without a line end at its front. -/
def skipNewline (s : List Char) : List Char := (newline? s).getD s

/-- A string in any of its forms. -/
def stringLiteral : List Char → Option (List Char × List Char)
  | '"' :: '"' :: '"' :: r => longBasicString false (skipNewline r)
  | '"' :: r => basicString r
  | '\'' :: '\'' :: '\'' :: r => longLiteralString (skipNewline r)
  | '\'' :: r => literalString r
  | _ => none

/-! ## Numbers -/

/-- The digits at the front of a text, with single underscores between them left out. -/
def moreDigits (base : Nat) : List Char → List Char × List Char
  | [] => ([], [])
  | '_' :: c :: r =>
    if isDigitOf base c then consRead c (moreDigits base r) else ([], '_' :: c :: r)
  | c :: r => if isDigitOf base c then consRead c (moreDigits base r) else ([], c :: r)

/-- One digit or more. -/
def someDigits (base : Nat) : List Char → Option (List Char × List Char)
  | [] => none
  | c :: r => if isDigitOf base c then some (consRead c (moreDigits base r)) else none

/-- A sign, which may be missing: whether it is a minus, and the rest. -/
def sign : List Char → Bool × List Char
  | '+' :: r => (false, r)
  | '-' :: r => (true, r)
  | r => (false, r)

/-- Decimal digits without leading zeros. -/
def decimalDigits : List Char → Option (List Char × List Char)
  | '0' :: r => some (['0'], r)
  | r => someDigits 10 r

/-- The number fits into 64 bits. -/
def inRange (n : Int) : Bool := -(Int.pow 2 63) ≤ n && n < Int.pow 2 63

/-- An integer in a base that its start names. -/
def prefixedInteger (base : Nat) (s : List Char) : Option (Toml × List Char) :=
  (someDigits base s).bind fun p =>
    let n : Int := digitsValue base p.1
    if inRange n then some (.int n, p.2) else none

/-- An integer. -/
def integerLiteral : List Char → Option (Toml × List Char)
  | '0' :: 'x' :: r => prefixedInteger 16 r
  | '0' :: 'o' :: r => prefixedInteger 8 r
  | '0' :: 'b' :: r => prefixedInteger 2 r
  | s =>
    let sg := sign s
    (decimalDigits sg.2).bind fun p =>
      let m : Int := digitsValue 10 p.1
      let n := if sg.1 then -m else m
      if inRange n then some (.int n, p.2) else none

/-- An exponent: its value and the rest. -/
def exponent? : List Char → Option (Int × List Char)
  | [] => none
  | c :: r =>
    if c = 'e' || c = 'E' then
      let sg := sign r
      (someDigits 10 sg.2).map fun p =>
        let n : Int := digitsValue 10 p.1
        (if sg.1 then -n else n, p.2)
    else none

/-- A fraction: its digits and the rest. -/
def fraction? : List Char → Option (List Char × List Char)
  | '.' :: r => someDigits 10 r
  | _ => none

/-- A number with a fraction, an exponent or both. One that rounds to infinity is refused. -/
def decimalFloat (s : List Char) : Option (Toml × List Char) :=
  let sg := sign s
  (decimalDigits sg.2).bind fun whole =>
    let result (ds : List Char) (e : Int) (r : List Char) : Option (Toml × List Char) :=
      let d : Decimal := ⟨digitsValue 10 (whole.1 ++ ds), e - ds.length⟩
      if !sg.1 && d.overflows then none else some (.float, r)
    match fraction? whole.2 with
    | some (ds, r) =>
      match exponent? r with
      | some (e, r) => result ds e r
      | none => result ds 0 r
    | none => (exponent? whole.2).bind fun p => result [] p.1 p.2

/-- A number with a fraction or an exponent, infinity, or no number. -/
def floatLiteral (s : List Char) : Option (Toml × List Char) :=
  match (sign s).2 with
  | 'i' :: 'n' :: 'f' :: r => some (.float, r)
  | 'n' :: 'a' :: 'n' :: r => some (.float, r)
  | _ => decimalFloat s

/-! ## Moments -/

/-- Exactly `n` digits, as a number. -/
def fixedDigits (n : Nat) (s : List Char) : Option (Nat × List Char) :=
  let ds := s.take n
  if ds.length = n && ds.all (isDigitOf 10) then some (digitsValue 10 ds, s.drop n) else none

/-- The rest after a character. -/
def expect (c : Char) : List Char → Option (List Char)
  | [] => none
  | d :: r => if c = d then some r else none

/-- The days of a month. -/
def daysIn (year month : Nat) : Nat :=
  if month = 2 then
    if (year % 4 = 0 && year % 100 ≠ 0) || year % 400 = 0 then 29 else 28
  else if month = 4 || month = 6 || month = 9 || month = 11 then 30
  else 31

/-- A number with at least `width` digits. -/
def padded (width n : Nat) : List Char :=
  let ds := (toString n).toList
  List.replicate (width - ds.length) '0' ++ ds

/-- A date in normal form. -/
def date (s : List Char) : Option (List Char × List Char) := do
  let (year, r) ← fixedDigits 4 s
  let (month, r) ← fixedDigits 2 (← expect '-' r)
  let (day, r) ← fixedDigits 2 (← expect '-' r)
  if 1 ≤ month && month ≤ 12 && 1 ≤ day && day ≤ daysIn year month then
    return (padded 4 year ++ '-' :: padded 2 month ++ '-' :: padded 2 day, r)
  else none

/-- The fraction of a second in normal form: at most nine digits, no zeros at its end. -/
def secondFraction (s : List Char) : Option (List Char × List Char) :=
  match s with
  | '.' :: r =>
    let ds := r.takeWhile (isDigitOf 10)
    if ds = [] then none
    else
      let kept := ((ds.take 9).reverse.dropWhile (· == '0')).reverse
      some (if kept = [] then [] else '.' :: kept, r.dropWhile (isDigitOf 10))
  | _ => some ([], s)

/-- Hours and minutes. -/
def hourMinute (s : List Char) : Option (Nat × Nat × List Char) := do
  let (hour, r) ← fixedDigits 2 s
  let (minute, r) ← fixedDigits 2 (← expect ':' r)
  if hour ≤ 23 && minute ≤ 59 then return (hour, minute, r) else none

/-- A time of day in normal form. -/
def time (s : List Char) : Option (List Char × List Char) := do
  let (hour, minute, r) ← hourMinute s
  let (second, r) ← fixedDigits 2 (← expect ':' r)
  let (fraction, r) ← secondFraction r
  if second ≤ 60 then
    return (padded 2 hour ++ ':' :: padded 2 minute ++ ':' :: padded 2 second ++ fraction, r)
  else none

/-- The distance from universal time in normal form. -/
def offset (s : List Char) : Option (List Char × List Char) :=
  match s with
  | 'Z' :: r => some (['Z'], r)
  | 'z' :: r => some (['Z'], r)
  | c :: r =>
    if c = '+' || c = '-' then
      (hourMinute r).map fun p =>
        let mark := if p.1 = 0 && p.2.1 = 0 then '+' else c
        (mark :: padded 2 p.1 ++ ':' :: padded 2 p.2.1, p.2.2)
    else none
  | [] => none

/-- The time after a date, with what separates them and the distance from universal time. -/
def timeOfDate (s : List Char) : Option (List Char × List Char) :=
  match s with
  | c :: r =>
    if c = 'T' || c = 't' || c = ' ' then
      (time r).map fun t =>
        match offset t.2 with
        | some o => ('T' :: t.1 ++ o.1, o.2)
        | none => ('T' :: t.1, t.2)
    else none
  | [] => none

/-- A date, a date with a time, or a time. -/
def momentLiteral (s : List Char) : Option (Toml × List Char) :=
  match date s with
  | some (d, r) =>
    match timeOfDate r with
    | some (t, r) => some (.moment (String.ofList (d ++ t)), r)
    | none => some (.moment (String.ofList d), r)
  | none => (time s).map fun p => (.moment (String.ofList p.1), p.2)

/-- A number or a moment. -/
def numberLiteral (s : List Char) : Option (Toml × List Char) :=
  (momentLiteral s).or ((floatLiteral s).or (integerLiteral s))

end ApiPages.Toml
