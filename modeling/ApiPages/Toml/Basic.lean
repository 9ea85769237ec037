/-!
# TOML values

* `Toml` — a value, a table, or a list of tables that headers built up.
* `TableStyle` — how a table came to be, which decides what may still be added to it.
* `Toml.insertDotted`, `Toml.openTable`, `Toml.openListed` — the three ways in which a document
  adds to its tables. All of them refuse to define anything twice.
-/

namespace ApiPages

/-- How a table came to be. -/
inductive TableStyle where
  /-- Written in braces: complete. -/
  | inlined
  /-- Passed through by the path of a header: may get a header of its own once. -/
  | implied
  /-- Passed through by a dotted key: may be extended by dotted keys. -/
  | dotted
  /-- Opened by a header. -/
  | header
deriving DecidableEq, Repr

/-- A TOML value. -/
inductive Toml where
  | str (s : String)
  | int (n : Int)
  /-- A number with a fraction or an exponent. -/
  | float
  | bool (b : Bool)
  /-- A date, a time or both, in normal form. -/
  | moment (text : String)
  | arr (elements : List Toml)
  | table (style : TableStyle) (entries : List (String × Toml))
  /-- Tables that headers in double brackets listed; the last one is open. -/
  | listed (earlier : List Toml) (style : TableStyle) (entries : List (String × Toml))
deriving Inhabited

namespace Toml

/-- The entries of a table. -/
abbrev Entries := List (String × Toml)

/-- The value of a key. -/
def lookup? (key : String) (es : Entries) : Option Toml :=
  (es.find? fun e => e.1 == key).map Prod.snd

/-- The entries with another value for a key. -/
def replace (key : String) (v : Toml) (es : Entries) : Entries :=
  es.map fun e => if e.1 == key then (key, v) else e

/-- Changes the table at the end of a path. Missing tables on the way get the style `fresh`; tables
of a style that `passes` refuses, and values that are no tables, are not entered. -/
def descend (fresh : TableStyle) (passes : TableStyle → Bool)
    (change : TableStyle → Entries → Option Entries) (style : TableStyle) (es : Entries) :
    (path : List String) → Option Entries
  | [] => change style es
  | key :: path =>
    match lookup? key es with
    | none =>
      (descend fresh passes change fresh [] path).map fun inner =>
        es ++ [(key, .table fresh inner)]
    | some (.table st inner) =>
      if passes st then
        (descend fresh passes change st inner path).map fun inner =>
          replace key (.table st inner) es
      else none
    | some (.listed earlier st inner) =>
      (descend fresh passes change st inner path).map fun inner =>
        replace key (.listed earlier st inner) es
    | some _ => none

/-- Adds a key that is not there yet. -/
def insertNew (key : String) (v : Toml) (es : Entries) : Option Entries :=
  match lookup? key es with
  | none => some (es ++ [(key, v)])
  | some _ => none

/-- Adds a value under a dotted key. The path goes through tables of dotted keys and ends in one. -/
def insertDotted (style : TableStyle) (path : List String) (key : String) (v : Toml)
    (es : Entries) : Option Entries :=
  descend .dotted (fun st => st == .implied || st == .dotted)
    (fun st inner =>
      if (st == .dotted) == path.isEmpty then none else insertNew key v inner)
    style es path

/-- Tables that the path of a header may go through. -/
def passesHeader (st : TableStyle) : Bool := st != .inlined

/-- Opens the table of a header. -/
def openTable (path : List String) (key : String) (es : Entries) : Option Entries :=
  descend .implied passesHeader
    (fun _ inner =>
      match lookup? key inner with
      | none => some (inner ++ [(key, .table .header [])])
      | some (.table .implied sub) => some (replace key (.table .header sub) inner)
      | some _ => none)
    .header es path

/-- Opens a further table of a header in double brackets. -/
def openListed (path : List String) (key : String) (es : Entries) : Option Entries :=
  descend .implied passesHeader
    (fun _ inner =>
      match lookup? key inner with
      | none => some (inner ++ [(key, .listed [] .header [])])
      | some (.listed earlier st sub) =>
        some (replace key (.listed (earlier ++ [.table st sub]) .header []) inner)
      | some _ => none)
    .header es path

/-- Adds a value to the table that the last header opened. -/
def assign (header path : List String) (key : String) (v : Toml) (es : Entries) : Option Entries :=
  descend .implied passesHeader (fun st inner => insertDotted st path key v inner) .header es header

end Toml

end ApiPages
