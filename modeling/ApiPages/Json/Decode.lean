import ApiPages.Dict
import ApiPages.Json.Basic

/-!
# Decoding JSON values

Readers of typed data from JSON values. A record may be given as an object, whose unknown fields are
ignored and whose known fields occur once, or as an array of its fields in order.

* `Json.asString?`, `Json.asBool?`, `Json.asLine?`, `Json.asList?`, `Json.asDict?`, `Json.asOption?`
  — readers of single values.
* `Json.record?` — the view of a value as a record with given field names.
* `Record.required`, `Record.optional`, `Record.withDefault` — readers of one field.
* `Json.asUnitCase?` — a name out of a fixed list, also written as an object with that one name.
-/

namespace ApiPages

namespace Json

variable {α : Type}

/-- A string. -/
def asString? : Json → Option String
  | .str s => some s
  | _ => none

/-- A truth value. -/
def asBool? : Json → Option Bool
  | .bool b => some b
  | _ => none

/-- An unsigned integer. -/
def asNat? : Json → Option Nat
  | .nat n => some n
  | _ => none

/-- An unsigned integer of 32 bits. -/
def asLine? : Json → Option UInt32
  | .nat n => if n < UInt32.size then some (UInt32.ofNat n) else none
  | _ => none

/-- An array with every element read by `read`. -/
def asList? (read : Json → Option α) : Json → Option (List α)
  | .arr xs => xs.mapM read
  | _ => none

/-- An array of strings. -/
def asStrings? (j : Json) : Option (List String) := j.asList? asString?

/-- A set of names, written as an array. -/
def asNames? (j : Json) : Option NameSet := j.asStrings?.map NameSet.ofNames

/-- An object with every field value read by `read`; the last field of a name counts. -/
def asDict? (read : Json → Option α) : Json → Option (Dict α)
  | .obj fs => (fs.mapM fun f => (read f.2).map fun v => (f.1, v)).map Dict.ofList
  | _ => none

/-- Null for a missing value. -/
def asOption? (read : Json → Option α) : Json → Option (Option α)
  | .null => some none
  | j => (read j).map some

/-- One of the names, as a string or as the only field of an object, with null as its value. -/
def asUnitCase? (names : List String) : Json → Option String
  | .str s => if s ∈ names then some s else none
  | .obj [(s, .null)] => if s ∈ names then some s else none
  | _ => none

end Json

/-- The known fields of a value that is read as a record. -/
structure Record where
  /-- The fields that are present. -/
  fields : List (String × Json)
  /-- The record was given as an array of its fields. -/
  positional : Bool

/-- No name occurs twice. -/
def namesDistinct : List String → Bool
  | [] => true
  | n :: ns => !ns.contains n && namesDistinct ns

namespace Json

/-- The value as a record with the given field names. An array has at most as many elements as
there are names; in an object every known name occurs at most once. -/
def record? (names : List String) : Json → Option Record
  | .obj fs =>
    let known := fs.filter fun f => names.contains f.1
    if namesDistinct (known.map Prod.fst) then some ⟨known, false⟩ else none
  | .arr xs => if xs.length ≤ names.length then some ⟨names.zip xs, true⟩ else none
  | _ => none

end Json

namespace Record

variable {α : Type}

/-- The value of a field, if it is present. -/
def get? (r : Record) (name : String) : Option Json :=
  (r.fields.find? fun f => f.1 == name).map Prod.snd

/-- A field that has to be present. -/
def required (r : Record) (name : String) (read : Json → Option α) : Option α :=
  (r.get? name).bind read

/-- A field that an object may leave out and that may be null. -/
def optional (r : Record) (name : String) (read : Json → Option α) : Option (Option α) :=
  match r.get? name with
  | some j => j.asOption? read
  | none => if r.positional then none else some none

/-- A field that may be left out, with the value it then has. -/
def withDefault (r : Record) (name : String) (default : α) (read : Json → Option α) : Option α :=
  match r.get? name with
  | some j => read j
  | none => some default

end Record

end ApiPages
