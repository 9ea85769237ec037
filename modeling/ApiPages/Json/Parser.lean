import ApiPages.Decimal
import ApiPages.Json.Basic

/-!
# Reading JSON

A strict reader of JSON texts: no comments, no trailing commas, no leading zeros, no control
characters inside strings, nothing after the value but blanks. Nesting is not limited here.

* `Json.parse?` — the value of a text.
* `Json.parseString`, `Json.parseNumber`, `Json.parseValue` — the value at the front of a text and
  what is left of it.
-/

namespace ApiPages.Json

/-- A blank between tokens. -/
def isSpace (c : Char) : Bool := c = ' ' || c = '\t' || c = '\n' || c = '\r'

/-- The text from its first character that is not a blank. -/
def skipSpace (s : List Char) : List Char := s.dropWhile isSpace

/-! ## Strings -/

/-- A part of a string literal: a character, or a code unit given by its number. -/
inductive StringPart where
  | char (c : Char)
  | unit (n : Nat)
deriving DecidableEq, Repr

/-- The character that a one-letter escape stands for. -/
def escapeLetter? : Char → Option Char
  | '"' => some '"'
  | '\\' => some '\\'
  | '/' => some '/'
  | 'b' => some '\x08'
  | 'f' => some '\x0c'
  | 'n' => some '\n'
  | 'r' => some '\r'
  | 't' => some '\t'
  | _ => none

/-- The parts of a string literal after its opening quote, and the text after its closing quote. -/
def stringParts : List Char → Option (List StringPart × List Char)
  | [] => none
  | '"' :: r => some ([], r)
  | '\\' :: 'u' :: a :: b :: c :: d :: r =>
    if [a, b, c, d].all (isDigitOf 16) then
      (stringParts r).map fun p => (.unit (digitsValue 16 [a, b, c, d]) :: p.1, p.2)
    else none
  | '\\' :: e :: r =>
    match escapeLetter? e with
    | some c => (stringParts r).map fun p => (.char c :: p.1, p.2)
    | none => none
  | c :: r =>
    if c.toNat < 0x20 || c = '\\' then none
    else (stringParts r).map fun p => (.char c :: p.1, p.2)

/-- The unit opens a surrogate pair. -/
def isHighSurrogate (n : Nat) : Bool := 0xD800 ≤ n && n < 0xDC00

/-- The unit closes a surrogate pair. -/
def isLowSurrogate (n : Nat) : Bool := 0xDC00 ≤ n && n < 0xE000

/-- The text of a string literal; it has none if a surrogate stands alone. -/
def assemble : List StringPart → Option (List Char)
  | [] => some []
  | .char c :: ps => (assemble ps).map (c :: ·)
  | .unit h :: ps =>
    if isHighSurrogate h then
      match ps with
      | .unit l :: qs =>
        if isLowSurrogate l then
          (assemble qs).map (Char.ofNat (0x10000 + (h - 0xD800) * 0x400 + (l - 0xDC00)) :: ·)
        else none
      | _ => none
    else if isLowSurrogate h then none
    else (assemble ps).map (Char.ofNat h :: ·)

/-- The text of the string literal after its opening quote, if it has one, and the rest. -/
def parseString (s : List Char) : Option (Option String × List Char) :=
  (stringParts s).map fun p => ((assemble p.1).map String.ofList, p.2)

/-! ## Numbers -/

/-- The digits at the front of a text and the rest. -/
def takeDigits (s : List Char) : List Char × List Char :=
  (s.takeWhile (isDigitOf 10), s.dropWhile (isDigitOf 10))

/-- An integer part: `0`, or digits that do not start with `0`. -/
def parseInteger (s : List Char) : Option (List Char × List Char) :=
  match s with
  | '0' :: r => some (['0'], r)
  | _ =>
    let p := takeDigits s
    if p.1 = [] then none else some p

/-- A fraction, which may be missing: its digits and the rest. -/
def parseFraction (s : List Char) : Option (Option (List Char) × List Char) :=
  match s with
  | '.' :: r =>
    let p := takeDigits r
    if p.1 = [] then none else some (some p.1, p.2)
  | _ => some (none, s)

/-- An exponent, which may be missing: its value and the rest. -/
def parseExponent (s : List Char) : Option (Option Int × List Char) :=
  match s with
  | [] => some (none, s)
  | c :: r =>
    if c = 'e' || c = 'E' then
      let signed : Bool × List Char :=
        match r with
        | '+' :: t => (false, t)
        | '-' :: t => (true, t)
        | _ => (false, r)
      let p := takeDigits signed.2
      if p.1 = [] then none
      else
        let n : Int := digitsValue 10 p.1
        some (some (if signed.1 then -n else n), p.2)
    else some (none, s)

/-- The number at the front of a text and the rest. -/
def parseNumber (s : List Char) : Option (Json × List Char) :=
  let signed : Bool × List Char :=
    match s with
    | '-' :: r => (true, r)
    | _ => (false, s)
  match parseInteger signed.2 with
  | none => none
  | some (whole, r) =>
    match parseFraction r with
    | none => none
    | some (fraction, r) =>
      match parseExponent r with
      | none => none
      | some (exponent, r) =>
        let ds := fraction.getD []
        let value : Decimal := ⟨digitsValue 10 (whole ++ ds), exponent.getD 0 - ds.length⟩
        if value.overflows then some (.unreadable, r)
        else if signed.1 || fraction.isSome || exponent.isSome then
          some (.number (s.take (s.length - r.length)), r)
        else some (.nat (digitsValue 10 whole), r)

/-! ## Values -/

mutual

/-- The value at the front of a text and the rest. Every step down takes one from `fuel`. -/
def parseValue (fuel : Nat) (s : List Char) : Option (Json × List Char) :=
  match fuel with
  | 0 => none
  | fuel + 1 =>
    match skipSpace s with
    | 'n' :: 'u' :: 'l' :: 'l' :: r => some (.null, r)
    | 't' :: 'r' :: 'u' :: 'e' :: r => some (.bool true, r)
    | 'f' :: 'a' :: 'l' :: 's' :: 'e' :: r => some (.bool false, r)
    | '"' :: r =>
      (parseString r).map fun p =>
        match p.1 with
        | some t => (.str t, p.2)
        | none => (.unreadable, p.2)
    | '[' :: r =>
      match skipSpace r with
      | ']' :: r => some (.arr [], r)
      | _ => (parseElements fuel r).map fun p => (.arr p.1, p.2)
    | '{' :: r =>
      match skipSpace r with
      | '}' :: r => some (.obj [], r)
      | _ =>
        (parseFields fuel r).map fun p =>
          match p.1 with
          | some fs => (.obj fs, p.2)
          | none => (.unreadable, p.2)
    | s => parseNumber s

/-- The elements of an array up to its closing bracket. -/
def parseElements (fuel : Nat) (s : List Char) : Option (List Json × List Char) :=
  match fuel with
  | 0 => none
  | fuel + 1 =>
    match parseValue fuel s with
    | none => none
    | some (x, r) =>
      match skipSpace r with
      | ',' :: r => (parseElements fuel r).map fun p => (x :: p.1, p.2)
      | ']' :: r => some ([x], r)
      | _ => none

/-- The fields of an object up to its closing brace; no list if a name has no text. -/
def parseFields (fuel : Nat) (s : List Char) : Option (Option (List (String × Json)) × List Char) :=
  match fuel with
  | 0 => none
  | fuel + 1 =>
    match skipSpace s with
    | '"' :: r =>
      match parseString r with
      | none => none
      | some (name, r) =>
        match skipSpace r with
        | ':' :: r =>
          match parseValue fuel r with
          | none => none
          | some (x, r) =>
            let here : Option (String × Json) := name.map fun n => (n, x)
            match skipSpace r with
            | ',' :: r =>
              (parseFields fuel r).map fun p =>
                (here.bind fun f => p.1.map fun fs => f :: fs, p.2)
            | '}' :: r => some (here.map fun f => [f], r)
            | _ => none
        | _ => none
    | _ => none

end

/-- The value of a text that holds nothing but one value. -/
def parse? (s : String) : Option Json :=
  match parseValue (2 * s.length + 2) s.toList with
  | some (j, r) => if skipSpace r = [] then some j else none
  | none => none

end ApiPages.Json
