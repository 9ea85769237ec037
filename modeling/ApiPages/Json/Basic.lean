/-!
# JSON values

* `Json` — a value of a JSON text. Plain unsigned integers are kept by value and all other numbers by
  their literal, which no reader here looks into. Objects keep their fields in order, with
  repetitions.
* `Json.depth` — how deep arrays and objects nest.
* `Json.isReadable` — no part of the value is `unreadable`.
-/

namespace ApiPages

/-- A JSON value. -/
inductive Json where
  | null
  | bool (b : Bool)
  /-- A number written as an unsigned integer. -/
  | nat (n : Nat)
  /-- A number with a sign, a fraction or an exponent, as it is written. -/
  | number (literal : List Char)
  | str (s : String)
  | arr (elements : List Json)
  | obj (fields : List (String × Json))
  /-- A well-formed literal without a value: a string with half of a surrogate pair, a number too
  large for double precision, or an object with such a string as a name. -/
  | unreadable
deriving Inhabited

namespace Json

mutual

/-- The largest number of arrays and objects around a part of the value. -/
def depth : Json → Nat
  | .arr xs => depthElements xs + 1
  | .obj fs => depthFields fs + 1
  | _ => 0

/-- The largest depth of the elements. -/
def depthElements : List Json → Nat
  | [] => 0
  | x :: xs => max x.depth (depthElements xs)

/-- The largest depth of the field values. -/
def depthFields : List (String × Json) → Nat
  | [] => 0
  | (_, x) :: fs => max x.depth (depthFields fs)

end

mutual

/-- No part of the value is `unreadable`. -/
def isReadable : Json → Bool
  | .unreadable => false
  | .arr xs => areReadable xs
  | .obj fs => fieldsReadable fs
  | _ => true

/-- All elements are readable. -/
def areReadable : List Json → Bool
  | [] => true
  | x :: xs => x.isReadable && areReadable xs

/-- All field values are readable. -/
def fieldsReadable : List (String × Json) → Bool
  | [] => true
  | (_, x) :: fs => x.isReadable && fieldsReadable fs

end

/-- A string or null. -/
def ofOption : Option String → Json
  | some s => .str s
  | none => .null

/-- An array of strings. -/
def strings (xs : List String) : Json := .arr (xs.map .str)

/-- The value of the first field of that name. -/
def field? (j : Json) (name : String) : Option Json :=
  match j with
  | .obj fs => (fs.find? fun f => f.1 == name).map Prod.snd
  | _ => none

end Json

end ApiPages
