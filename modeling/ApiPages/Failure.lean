import ApiPages.Json.Printer

/-!
# Failures

What can end a run. A failure has a text, an exit code and sometimes a path, and is reported as a
JSON response.

* `Failure` — the causes.
* `Failure.message`, `Failure.exitCode`, `Failure.path?` — how a failure is told.
* `Failure.response` — the response that is printed.
-/

namespace ApiPages

/-- Why a run ended. -/
inductive Failure where
  /-- The caller's arguments make no sense. -/
  | arguments (message : String)
  /-- The configuration cannot be read. -/
  | configuration (message : String)
  /-- The snapshot cannot be loaded. -/
  | snapshot (message : String)
  /-- Two nodes of the snapshot have the same path. -/
  | duplicatePath (path : String)
  /-- The modules nest deeper than the limit. -/
  | tooDeep (path : String) (limit : Nat)
  /-- A file operation failed. -/
  | file (path cause : String)
  /-- A JSON value does not have the expected form. -/
  | json (detail : String)
  /-- The program contradicts itself. -/
  | internal (message : String)
deriving DecidableEq, Repr

namespace Failure

/-- The text of a failure. -/
def message : Failure → String
  | arguments m => "invalid arguments: " ++ m
  | configuration m => "config error: " ++ m
  | snapshot m => "invalid snapshot: " ++ m
  | duplicatePath p => "duplicate canonical path in snapshot: " ++ p
  | tooDeep p n => "maximum recursion depth (" ++ toString n ++ ") exceeded at " ++ p
  | file p cause => "IO error at " ++ p ++ ": " ++ cause
  | json d => "JSON error: " ++ d
  | internal m => "internal error: " ++ m

/-- The exit code: 2 for the caller's settings, 3 for the input, 4 for the output, 10 for faults of
the program. -/
def exitCode : Failure → Nat
  | arguments _ => 2
  | configuration _ => 2
  | snapshot _ => 3
  | duplicatePath _ => 3
  | tooDeep _ _ => 3
  | file _ _ => 4
  | json _ => 3
  | internal _ => 10

/-- The path that the failure is about. -/
def path? : Failure → Option String
  | duplicatePath p => some p
  | tooDeep p _ => some p
  | file p _ => some p
  | _ => none

/-- The response as JSON; the path is left out when there is none. -/
def toJson (f : Failure) : Json :=
  let path :=
    match f.path? with
    | some p => [("path", Json.str p)]
    | none => []
  .obj [("status", .str "error"),
    ("error", .obj ([("code", Json.nat f.exitCode), ("message", Json.str f.message)] ++ path))]

/-- The text of the response. -/
def response (f : Failure) : String := f.toJson.pretty 2 ++ "\n"

end Failure

end ApiPages
