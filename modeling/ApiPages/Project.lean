import ApiPages.Reexport
import ApiPages.Settings.Basic
import ApiPages.StandardLinks
import ApiPages.SymbolTable

/-!
# Projects

A project is a snapshot with the tables that references are resolved against.

* `Project` — the tables.
* `Project.build` — the project of a snapshot; only modules that nest too deep prevent it.
* `Project.tablesJson` — the tables for inspection.
-/

namespace ApiPages

/-- A snapshot and its tables. -/
structure Project where
  snapshot : Snapshot
  /-- Documented symbols by relative path. -/
  symbols : SymbolTable
  /-- Re-exports by canonical path. -/
  reexports : ReexportMap
  /-- Links of paths outside the project. -/
  externalLinks : Dict String
  /-- What navigation links start with. -/
  linkBase : String
  /-- How deep modules may nest, and how many re-exports are followed. -/
  maxDepth : Nat

namespace Project

/-- The links of a run: those of the standard library, if wanted, below those of the settings. -/
def linksOf (s : Settings) : Dict String :=
  (if s.useStandardLinks then standardLinks else ∅).merge s.externalLinks

/-- The project of a snapshot, with the re-exports that have no target. -/
def build (snapshot : Snapshot) (settings : Settings) : Except Failure (Noted Project) := do
  let symbols ← SymbolTable.build snapshot settings.maxDepth
  let reexports ← ReexportMap.build snapshot settings.maxDepth
  let project : Project :=
    { snapshot, symbols, reexports := reexports.value, externalLinks := linksOf settings,
      linkBase := settings.linkBase, maxDepth := settings.maxDepth }
  return ⟨project, reexports.findings⟩

/-- The name of the package. -/
def rootName (p : Project) : String := p.snapshot.rootName

/-- The tables as JSON. -/
def tablesJson (p : Project) : Json :=
  .obj [("root", .str p.rootName), ("symbols", p.symbols.toJson), ("aliases", p.reexports.toJson)]

end Project

end ApiPages
