import ApiPages.Page.Build
import ApiPages.Page.Json
import ApiPages.Run.Output
import ApiPages.Run.Summary
import ApiPages.Settings.File

/-!
# Runs

A run loads settings and a snapshot, builds the tables, and writes one page for every documented
package, parents first. The tables are complete before anything is written.

* `generate` — writes the pages of a snapshot.
* `loadSettings`, `loadSnapshot` — reading files.
* `runGenerate`, `runSymbols` — the two commands, with what they print.
-/

namespace ApiPages

variable {m : Type → Type} [Monad m]

/-- What writing the pages led to. -/
structure Report where
  /-- The files in the order in which they were written. -/
  written : List String
  diagnostics : Diagnostics
deriving DecidableEq

/-- Writes the pages of a walk and adds what was found to `d`. -/
def writePages (fs : FileSystem m) (project : Project) (out : String) (d : Diagnostics) :
    List Visit → ExceptT Failure m Report
  | [] => pure ⟨[], d⟩
  | v :: walk => do
    let page := project.pageOf v.module
    let target := pagePath out v.module.path
    fs.replaceFile target (page.value.toJson.pretty 4)
    let rest ← writePages fs project out (d.merge (Diagnostics.ofFindings page.findings)) walk
    return ⟨target :: rest.written, rest.diagnostics⟩

/-- Writes the pages of a snapshot. -/
def generate (fs : FileSystem m) (snapshot : Snapshot) (settings : Settings) :
    ExceptT Failure m Report :=
  match Project.build snapshot settings with
  | .error f => throw f
  | .ok project =>
    let found := Diagnostics.ofFindings project.findings
    writePages fs project.value settings.out found snapshot.pages

/-- Reads a settings file. -/
def readSettings (fs : FileSystem m) (path : String) : ExceptT Failure m Settings := do
  match ← fs.readText path with
  | .error e =>
    throw (.configuration ("failed to read config file " ++ path ++ ": " ++ e.message))
  | .ok text => ExceptT.mk (pure (Settings.ofText text))

/-- The settings of a run: those of the named file, or of the file in the working directory if there
is one, with the changes of the command line. -/
def loadSettings (fs : FileSystem m) (path : Option String) (overrides : Overrides) :
    ExceptT Failure m Settings := do
  let settings ←
    match path with
    | some path => readSettings fs path
    | none => do
      let path := UnixPath.push (← fs.workingDir) Settings.fileName
      if ← fs.pathExists path then readSettings fs path else pure Settings.standard
  return settings.override overrides

/-- Reads a snapshot. -/
def loadSnapshot (fs : FileSystem m) (path : String) : ExceptT Failure m Snapshot := do
  match ← fs.readText path with
  | .error e => throw (.snapshot ("failed to read " ++ path ++ ": " ++ e.message))
  | .ok text =>
    match Snapshot.ofText text with
    | .ok s => return s
    | .error fault => throw fault.failure

/-- How a summary is printed. -/
inductive SummaryFormat where
  | text
  | json
deriving DecidableEq, Repr

/-- The text of a summary in a format. -/
def Summary.inFormat (s : Summary) : SummaryFormat → String
  | .text => s.render
  | .json => s.response

/-- Writes the pages of the snapshot in a file and sums up. -/
def runGenerate (fs : FileSystem m) (snapshotPath : String) (settings : Settings) :
    ExceptT Failure m Summary := do
  let snapshot ← loadSnapshot fs snapshotPath
  let report ← generate fs snapshot settings
  return ⟨report.written.length, report.diagnostics⟩

/-- The tables of the snapshot in a file, as text. -/
def runSymbols (fs : FileSystem m) (snapshotPath : String) (settings : Settings) :
    ExceptT Failure m String := do
  let snapshot ← loadSnapshot fs snapshotPath
  match Project.build snapshot settings with
  | .error f => throw f
  | .ok project => return project.value.tablesJson.pretty 2 ++ "\n"

end ApiPages
