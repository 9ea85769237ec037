import ApiPages.CommandLine.Basic
import ApiPages.Contents
import ApiPages.Decimal
import ApiPages.Diagnostics.Basic
import ApiPages.Diagnostics.Finding
import ApiPages.Dict
import ApiPages.Docstring.Basic
import ApiPages.Docstring.Section
import ApiPages.DottedPath
import ApiPages.Expr.Basic
import ApiPages.Expr.Json
import ApiPages.Expr.Walk
import ApiPages.Failure
import ApiPages.FileSystem.Basic
import ApiPages.FileSystem.Store
import ApiPages.Json.Basic
import ApiPages.Json.Decode
import ApiPages.Json.Parser
import ApiPages.Json.Printer
import ApiPages.Main
import ApiPages.ModuleWalk
import ApiPages.Page.Basic
import ApiPages.Page.Build
import ApiPages.Page.Json
import ApiPages.Project
import ApiPages.Proofs.Bins
import ApiPages.Proofs.BlankTexts
import ApiPages.Proofs.CheckedWalks
import ApiPages.Proofs.ClassDocstrings
import ApiPages.Proofs.Crawl
import ApiPages.Proofs.DeclarationNames
import ApiPages.Proofs.DepthGuard
import ApiPages.Proofs.DictLaws
import ApiPages.Proofs.DocstringBlocks
import ApiPages.Proofs.DocstringFormat
import ApiPages.Proofs.DocstringRoundTrip
import ApiPages.Proofs.DocstringRuns
import ApiPages.Proofs.ExprNames
import ApiPages.Proofs.ExprParts
import ApiPages.Proofs.ExprReading
import ApiPages.Proofs.ExprRoundTrip
import ApiPages.Proofs.FencedCode
import ApiPages.Proofs.FindingOrder
import ApiPages.Proofs.Flattening
import ApiPages.Proofs.HeaderComments
import ApiPages.Proofs.HeaderText
import ApiPages.Proofs.JsonText
import ApiPages.Proofs.KeptSections
import ApiPages.Proofs.LineLaws
import ApiPages.Proofs.Listing
import ApiPages.Proofs.Loading
import ApiPages.Proofs.MissingDocstrings
import ApiPages.Proofs.NavigationPaths
import ApiPages.Proofs.NormalForm
import ApiPages.Proofs.PageFindings
import ApiPages.Proofs.PageListing
import ApiPages.Proofs.PagePaths
import ApiPages.Proofs.PageRoundTrip
import ApiPages.Proofs.PageSymbols
import ApiPages.Proofs.ParameterLines
import ApiPages.Proofs.PathComponents
import ApiPages.Proofs.Paths
import ApiPages.Proofs.ProcessingOrder
import ApiPages.Proofs.ReexportBindings
import ApiPages.Proofs.ReexportChains
import ApiPages.Proofs.ReexportTrails
import ApiPages.Proofs.ReferenceAgreement
import ApiPages.Proofs.Reporting
import ApiPages.Proofs.RunDiagnostics
import ApiPages.Proofs.Shorthands
import ApiPages.Proofs.SpelledNames
import ApiPages.Proofs.SplitLaws
import ApiPages.Proofs.SymbolKeys
import ApiPages.Proofs.Tables
import ApiPages.Proofs.TagReplacement
import ApiPages.Proofs.TaggedTexts
import ApiPages.Proofs.Tags
import ApiPages.Proofs.Tree
import ApiPages.Proofs.WalkEvents
import ApiPages.Proofs.Walks
import ApiPages.Proofs.WildcardReexports
import ApiPages.Proofs.WorkList
import ApiPages.Proofs.WrittenPages
import ApiPages.Reexport
import ApiPages.Reference.CrossLink
import ApiPages.Reference.Resolve
import ApiPages.Reference.Tag
import ApiPages.Run.Basic
import ApiPages.Run.Output
import ApiPages.Run.Summary
import ApiPages.Settings.Basic
import ApiPages.Settings.File
import ApiPages.Snapshot.Basic
import ApiPages.Snapshot.Builder
import ApiPages.Snapshot.Declaration
import ApiPages.Snapshot.Node
import ApiPages.SourceHeader
import ApiPages.StandardLinks
import ApiPages.Symbol
import ApiPages.SymbolTable
import ApiPages.Text.Blank
import ApiPages.Text.Indent
import ApiPages.Text.Lines
import ApiPages.Text.Word
import ApiPages.Text.WordRanges
import ApiPages.Toml.Basic
import ApiPages.Toml.Document
import ApiPages.Toml.Scalar
import ApiPages.UnixPath
