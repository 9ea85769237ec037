import ApiPages.Diagnostics.Basic
import ApiPages.Json.Printer

/-!
# Summaries

* `Summary` — how many files a run wrote and what it found.
* `Summary.render`, `Summary.response` — its text and its JSON form.
-/

namespace ApiPages

/-- The outcome of a run. -/
structure Summary where
  filesWritten : Nat
  diagnostics : Diagnostics
deriving DecidableEq

namespace Summary

/-- The labelled text. -/
def render (s : Summary) : String :=
  "Files written: " ++ toString s.filesWritten ++ "\n" ++ s.diagnostics.render

/-- The summary as JSON. -/
def toJson (s : Summary) : Json :=
  .obj [("status", .str "ok"), ("files_written", .nat s.filesWritten),
    ("counts", s.diagnostics.counts.toJson), ("diagnostics", s.diagnostics.toJson)]

/-- The text of the JSON form. -/
def response (s : Summary) : String := s.toJson.pretty 2 ++ "\n"

end Summary

end ApiPages
