import LineTags.Text.Quoted
import LineTags.Text.Digit
import LineTags.Text.LineBreak
import LineTags.Text.Utf8
import LineTags.Story.Parser
import LineTags.Project
import LineTags.AppFolder
import LineTags.Settings.Record
import LineTags.Message.Catalogue
import LineTags.CommandLine.Tagging
import LineTags.Buffer.Memory
import LineTags.Buffer.Widget
import LineTags.Sync.Schedule
import LineTags.TaggingError
import LineTags.Json.Reader
import LineTags.Json.Writer
import LineTags.Extraction
import LineTags.Editor.Launch
import LineTags.Main
import LineTags.Proofs.Tag.Grammar
import LineTags.Proofs.Tag.CommentCut
import LineTags.Proofs.Tag.CommentBoundary
import LineTags.Proofs.Tag.Insertion
import LineTags.Proofs.Tag.Gaps
import LineTags.Proofs.Script.RoundTrip
import LineTags.Proofs.Script.Survival
import LineTags.Proofs.Script.Shedding
import LineTags.Proofs.Script.Modes
import LineTags.Proofs.Script.Rereading
import LineTags.Proofs.Script.Cleaning
import LineTags.Proofs.Buffer.Position
import LineTags.Proofs.Buffer.Laws
import LineTags.Proofs.Buffer.Tracker
import LineTags.Proofs.Buffer.Binding
import LineTags.Proofs.Buffer.Ownership
import LineTags.Proofs.Buffer.Rows
import LineTags.Proofs.Buffer.Coordinates
import LineTags.Proofs.Buffer.Agreement
import LineTags.Proofs.Buffer.Sheet
import LineTags.Proofs.Buffer.SheetRun
import LineTags.Proofs.Keyed
import LineTags.Proofs.Session.Delivery
import LineTags.Proofs.Session.Reachable
import LineTags.Proofs.Session.Refusal
import LineTags.Proofs.Session.Opening
import LineTags.Proofs.Session.FreeLines
import LineTags.Proofs.Session.Staging
import LineTags.Proofs.Session.Traits
import LineTags.Proofs.Session.Gains
import LineTags.Proofs.Session.Reopening
import LineTags.Proofs.Session.Sheets
import LineTags.Proofs.Sync.Run
import LineTags.Proofs.Sync.Interleaving
import LineTags.Proofs.Sync.Staleness
import LineTags.Proofs.Minting.Freshness
import LineTags.Proofs.Sync.Uniqueness
import LineTags.Proofs.Sync.Accumulation
import LineTags.Proofs.Sync.Reservation
import LineTags.Proofs.Sync.Footprint
import LineTags.Proofs.Sync.Announcement
import LineTags.Proofs.Session.Typing
import LineTags.Proofs.Story.Reading
import LineTags.Proofs.Story.Continuation
import LineTags.Proofs.Story.Outline
import LineTags.Proofs.Story.TaggedBody
import LineTags.Proofs.Story.TaggedForm
import LineTags.Proofs.Story.TaggedLine
import LineTags.Proofs.Story.Pages
import LineTags.Proofs.Story.PageOutline
import LineTags.Proofs.Minting.Walk
import LineTags.Proofs.Minting.LineGroups
import LineTags.Proofs.Minting.Wanting
import LineTags.Proofs.Story.Provenance
import LineTags.Proofs.Story.ContainerNames
import LineTags.Proofs.Story.TaggedFile
import LineTags.Proofs.Story.Tagging
import LineTags.Proofs.Story.LineKinds
import LineTags.Proofs.Story.Closure
import LineTags.Proofs.Story.Reentry
import LineTags.Proofs.Disk.Saving
import LineTags.Proofs.Disk.Walking
import LineTags.Proofs.Disk.Loading
import LineTags.Proofs.Disk.IncludeLines
import LineTags.Proofs.Disk.SameScripts
import LineTags.Proofs.CommandLine.Course
import LineTags.Proofs.CommandLine.Adding
import LineTags.Proofs.CommandLine.Completeness
import LineTags.Proofs.CommandLine.Rerun
import LineTags.Proofs.Sync.History
import LineTags.Proofs.Sync.Pending
import LineTags.Proofs.Sync.Staging
import LineTags.Proofs.Sync.Consistency
import LineTags.Proofs.Story.TagReading
import LineTags.Proofs.Minting.Agreement
import LineTags.Proofs.Minting.WantingBefore
import LineTags.Proofs.Minting.Sighting
import LineTags.Proofs.Minting.Reporting
import LineTags.Proofs.Script.Growing
import LineTags.Proofs.Sync.SecondRun
import LineTags.Proofs.Editor.Widgets
import LineTags.Proofs.Editor.Baseline
import LineTags.Proofs.Editor.Actions
import LineTags.Proofs.Editor.Opening
import LineTags.Proofs.Editor.DirtyFlag
import LineTags.Proofs.Editor.FailedOpening
import LineTags.Proofs.Minting.Accounting
import LineTags.Proofs.Story.Scope
import LineTags.Proofs.Story.Assembly
import LineTags.Proofs.Story.Shape
import LineTags.Proofs.Minting.Readback
import LineTags.Proofs.Minting.Shown
import LineTags.Proofs.Minting.Collisions
import LineTags.Proofs.Buffer.Filling
import LineTags.Proofs.Buffer.Contract
import LineTags.Proofs.Session.Tracking
import LineTags.Proofs.Sync.Debounce
import LineTags.Proofs.Story.Includes
import LineTags.Proofs.Text.Order
import LineTags.Proofs.Session.Places
import LineTags.Proofs.Tag.Pattern
import LineTags.Proofs.Tag.Spacing
import LineTags.Proofs.Script.Strictness
import LineTags.Proofs.Tag.CommentColumns
import LineTags.Proofs.Tag.Hiding
import LineTags.Proofs.Tag.Repair
import LineTags.Proofs.Script.Settling
import LineTags.Proofs.Json.Faults
import LineTags.Proofs.Json.Overflow
import LineTags.Proofs.Disk.Errors
import LineTags.Proofs.Settings.Range
import LineTags.Proofs.Settings.Loading
import LineTags.Proofs.Json.RoundTrip
import LineTags.Proofs.Settings.Saving
import LineTags.Proofs.Settings.Recent
import LineTags.Proofs.CommandLine.Endings
