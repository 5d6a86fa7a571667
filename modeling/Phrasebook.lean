import Phrasebook.Buffer
import Phrasebook.Command.Arguments
import Phrasebook.Command.Localize
import Phrasebook.Command.Mappings
import Phrasebook.Command.Program
import Phrasebook.Command.Session
import Phrasebook.Command.Usage
import Phrasebook.Comment
import Phrasebook.Config.Basic
import Phrasebook.Config.File
import Phrasebook.Digest
import Phrasebook.Entries
import Phrasebook.Files.Backup
import Phrasebook.Files.Discover
import Phrasebook.Files.Glob
import Phrasebook.Files.Ignore
import Phrasebook.Files.Read
import Phrasebook.Files.Tree
import Phrasebook.Files.Wildcard
import Phrasebook.Files.Write
import Phrasebook.Json.Basic
import Phrasebook.Json.Reader
import Phrasebook.Json.Writer
import Phrasebook.LineDiff.Matching
import Phrasebook.LineDiff.Unified
import Phrasebook.Literal
import Phrasebook.Localize
import Phrasebook.Log
import Phrasebook.Lookup
import Phrasebook.Main
import Phrasebook.Mapping.Basic
import Phrasebook.Mapping.Check
import Phrasebook.Mapping.Difference
import Phrasebook.Mapping.File
import Phrasebook.Mapping.LocaleModule
import Phrasebook.Mapping.Merge
import Phrasebook.Mapping.Preview
import Phrasebook.Mapping.Spreadsheet
import Phrasebook.Markup
import Phrasebook.Path
import Phrasebook.Proofs.AddedLines
import Phrasebook.Proofs.AppliedDiffs
import Phrasebook.Proofs.Assignments
import Phrasebook.Proofs.Backups
import Phrasebook.Proofs.BareSpans
import Phrasebook.Proofs.Batches
import Phrasebook.Proofs.BodyTags
import Phrasebook.Proofs.CallLiterals
import Phrasebook.Proofs.Calls
import Phrasebook.Proofs.CanonicalKeys
import Phrasebook.Proofs.CodeLines
import Phrasebook.Proofs.CommentMask
import Phrasebook.Proofs.ConfigurationFiles
import Phrasebook.Proofs.Configurations
import Phrasebook.Proofs.Containment
import Phrasebook.Proofs.CountedTerms
import Phrasebook.Proofs.DiffReading
import Phrasebook.Proofs.Differences
import Phrasebook.Proofs.Discovery
import Phrasebook.Proofs.DryRuns
import Phrasebook.Proofs.EditScripts
import Phrasebook.Proofs.Edits
import Phrasebook.Proofs.EncodedLiterals
import Phrasebook.Proofs.Escapes
import Phrasebook.Proofs.Extraction
import Phrasebook.Proofs.FedLines
import Phrasebook.Proofs.FileTrees
import Phrasebook.Proofs.Frames
import Phrasebook.Proofs.GrownFiles
import Phrasebook.Proofs.GrownSelections
import Phrasebook.Proofs.IgnoredPaths
import Phrasebook.Proofs.ImportBlocks
import Phrasebook.Proofs.ImportSearch
import Phrasebook.Proofs.Inert
import Phrasebook.Proofs.InsertedLines
import Phrasebook.Proofs.Interpolations
import Phrasebook.Proofs.JsonText
import Phrasebook.Proofs.KeepingEdits
import Phrasebook.Proofs.KeepingSteps
import Phrasebook.Proofs.KeptComments
import Phrasebook.Proofs.LinklessTrees
import Phrasebook.Proofs.LiteralValue
import Phrasebook.Proofs.LocaleModules
import Phrasebook.Proofs.MappingFiles
import Phrasebook.Proofs.MarkerBraces
import Phrasebook.Proofs.Markers
import Phrasebook.Proofs.MarkupRun
import Phrasebook.Proofs.MatchedRuns
import Phrasebook.Proofs.Merges
import Phrasebook.Proofs.OpenedComments
import Phrasebook.Proofs.Overlays
import Phrasebook.Proofs.Patches
import Phrasebook.Proofs.Pools
import Phrasebook.Proofs.Preservation
import Phrasebook.Proofs.Provenance
import Phrasebook.Proofs.QuotePairs
import Phrasebook.Proofs.QuotedPieces
import Phrasebook.Proofs.Reading
import Phrasebook.Proofs.Registrations
import Phrasebook.Proofs.Renderings
import Phrasebook.Proofs.RepeatedMerges
import Phrasebook.Proofs.RepeatedWiring
import Phrasebook.Proofs.Replacements
import Phrasebook.Proofs.Respelling
import Phrasebook.Proofs.Scan
import Phrasebook.Proofs.ScriptPieces
import Phrasebook.Proofs.ScriptRun
import Phrasebook.Proofs.Selections
import Phrasebook.Proofs.Sessions
import Phrasebook.Proofs.Shades
import Phrasebook.Proofs.SharedRegistry
import Phrasebook.Proofs.Sights
import Phrasebook.Proofs.SkippedPlaces
import Phrasebook.Proofs.SoundTrees
import Phrasebook.Proofs.Soundness
import Phrasebook.Proofs.Steps
import Phrasebook.Proofs.StrippedLines
import Phrasebook.Proofs.Sweeps
import Phrasebook.Proofs.TaggedTexts
import Phrasebook.Proofs.Tasks
import Phrasebook.Proofs.TemplateReach
import Phrasebook.Proofs.Visits
import Phrasebook.Proofs.WholeLiterals
import Phrasebook.Proofs.Wiring
import Phrasebook.Proofs.WordingChecks
import Phrasebook.Proofs.Workbooks
import Phrasebook.Proofs.WrittenCalls
import Phrasebook.Proofs.WrittenPieces
import Phrasebook.Prose
import Phrasebook.Registry
import Phrasebook.Script.Imports
import Phrasebook.Script.Place
import Phrasebook.Source.Basic
import Phrasebook.Source.Batch
import Phrasebook.Source.Component
import Phrasebook.Source.File
import Phrasebook.Source.Task
import Phrasebook.Template
import Phrasebook.Term.Basic
import Phrasebook.Term.Extract
import Phrasebook.Text.Basic
import Phrasebook.Text.Blank
import Phrasebook.Text.Digit
import Phrasebook.Text.Hex
import Phrasebook.Text.LineEnd
import Phrasebook.Text.Printable
import Phrasebook.Text.Quoted
import Phrasebook.Text.Scan
import Phrasebook.Text.Utf8
import Phrasebook.Text.WordChar
import Phrasebook.Proofs.TiledPieces
import Phrasebook.Proofs.TiledRuns
import Phrasebook.Proofs.RepeatedRuns
