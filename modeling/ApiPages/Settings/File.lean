import ApiPages.Failure
import ApiPages.Settings.Basic
import ApiPages.Toml.Document

/-!
# Settings files

Settings are read from the table `tugdoc` of a TOML document. Settings that it leaves out have their
standard values, and unknown settings are ignored. The table may also be given as an array of the
settings in order.

* `Settings.ofToml?` — the settings of a document.
* `Settings.ofText` — the settings of the text of a file.
-/

namespace ApiPages.Settings

/-- The file that is looked for when none is named. -/
def fileName : String := "tugdoc.toml"

/-- The table of the settings. -/
def tableName : String := "tugdoc"

/-- The names of the settings, in order. -/
def fieldNames : List String := ["base_nav", "out", "external_links", "std_links", "max_depth"]

/-- The only entry of a moment that is read as a table. -/
def momentKey : String := "$__toml_private_datetime"

/-- The settings of a value by name. An array gives them in order, and what it has more is
ignored. -/
def namedFields? : Toml → Option Toml.Entries
  | .table _ es => some es
  | .arr xs => some (fieldNames.zip xs)
  | .listed earlier style es => some (fieldNames.zip (earlier ++ [.table style es]))
  | .moment text => some [(momentKey, .str text)]
  | _ => none

/-- A string. -/
def text? : Toml → Option String
  | .str s => some s
  | _ => none

/-- A truth value. -/
def truth? : Toml → Option Bool
  | .bool b => some b
  | _ => none

/-- A number that is not negative. -/
def count? : Toml → Option Nat
  | .int n => if 0 ≤ n then some n.toNat else none
  | _ => none

/-- Links by path. -/
def links? : Toml → Option (Dict String)
  | .table _ es => (es.mapM fun e => (text? e.2).map fun s => (e.1, s)).map Dict.ofList
  | .moment text => some (Dict.ofList [(momentKey, text)])
  | _ => none

/-- A setting that may be left out. -/
def setting? {α : Type} (es : Toml.Entries) (name : String) (standard : α)
    (read : Toml → Option α) : Option α :=
  match Toml.lookup? name es with
  | some v => read v
  | none => some standard

/-- The settings of a document. -/
def ofToml? (document : Toml.Entries) : Option Settings :=
  match Toml.lookup? tableName document with
  | none => some standard
  | some v => do
    let es ← namedFields? v
    return {
      baseNav := ← setting? es "base_nav" standard.baseNav text?
      out := ← setting? es "out" standard.out text?
      externalLinks := ← setting? es "external_links" standard.externalLinks links?
      useStandardLinks := ← setting? es "std_links" standard.useStandardLinks truth?
      maxDepth := ← setting? es "max_depth" standard.maxDepth count? }

/-- The settings of the text of a file. -/
def ofText (text : String) : Except Failure Settings :=
  match Toml.parse? text with
  | none => .error (.configuration "failed to parse config file: not a TOML document")
  | some document =>
    match ofToml? document with
    | none => .error (.configuration "failed to parse config file: a setting has the wrong type")
    | some s => .ok s

end ApiPages.Settings
