import UpdateFeed.Template
import UpdateFeed.Target
import UpdateFeed.Binary64.Basic
import UpdateFeed.Binary64.Decimal
import UpdateFeed.Text.Position
import UpdateFeed.Json.Number
import UpdateFeed.Json.Basic
import UpdateFeed.Json.Printer
import UpdateFeed.Json.Reader
import UpdateFeed.Path
import UpdateFeed.FileTree.Basic
import UpdateFeed.FileTree.Lookup
import UpdateFeed.FileTree.Replace
import UpdateFeed.Document
import UpdateFeed.Calendar
import UpdateFeed.Manifest
import UpdateFeed.FileTree.Create
import UpdateFeed.FileTree.Changes
import UpdateFeed.Text.Quoted
import UpdateFeed.Text.Plain
import UpdateFeed.Log.Line
import UpdateFeed.CommandLine.Reader
import UpdateFeed.CommandLine.Help
import UpdateFeed.Signature
import UpdateFeed.Toml.Document
import UpdateFeed.Config.Basic
import UpdateFeed.Program
import UpdateFeed.Main
import UpdateFeed.Proofs.Results
import UpdateFeed.Proofs.Interchange
import UpdateFeed.Proofs.Binary64.Rounding
import UpdateFeed.Proofs.Binary64.Shortest
import UpdateFeed.Proofs.Json.Rewriting
import UpdateFeed.Proofs.Json.Strings
import UpdateFeed.Proofs.Json.Forms
import UpdateFeed.Proofs.Json.Entries
import UpdateFeed.Proofs.Json.Places
import UpdateFeed.Proofs.Json.Replacement
import UpdateFeed.Proofs.Json.Setting
import UpdateFeed.Proofs.Json.Descent
import UpdateFeed.Proofs.Json.Layout
import UpdateFeed.Proofs.Json.Numerals
import UpdateFeed.Proofs.Json.NumberText
import UpdateFeed.Proofs.Json.Scaling
import UpdateFeed.Proofs.Json.Doubles
import UpdateFeed.Proofs.Json.Reading
import UpdateFeed.Proofs.Path
import UpdateFeed.Proofs.FileTree.Walking
import UpdateFeed.Proofs.FileTree.Listing
import UpdateFeed.Proofs.FileTree.Replacing
import UpdateFeed.Proofs.FileTree.Below
import UpdateFeed.Proofs.Glob.Rests
import UpdateFeed.Proofs.Glob.Slashes
import UpdateFeed.Proofs.Glob.SlashReading
import UpdateFeed.Proofs.Glob.SlashBound
import UpdateFeed.Proofs.Glob.Plain
import UpdateFeed.Proofs.Glob.LiteralStart
import UpdateFeed.Proofs.Glob.Brackets
import UpdateFeed.Proofs.Signature.Descent
import UpdateFeed.Proofs.Signature.Start
import UpdateFeed.Proofs.Signature.Steps
import UpdateFeed.Proofs.Signature.Considered
import UpdateFeed.Proofs.Signature.Exactness
import UpdateFeed.Proofs.Execution
import UpdateFeed.Proofs.Document
import UpdateFeed.Proofs.Document.InPlace
import UpdateFeed.Proofs.Manifest
import UpdateFeed.Proofs.Announcement.Edits
import UpdateFeed.Proofs.Announcement.Effects
import UpdateFeed.Proofs.Announcement.Chain
import UpdateFeed.Proofs.Announcement.Failure
import UpdateFeed.Proofs.Announcement.Strictness
import UpdateFeed.Proofs.FileTree.Outline
import UpdateFeed.Proofs.FileTree.Saving
import UpdateFeed.Proofs.FileTree.Agreement
import UpdateFeed.Proofs.FileTree.Overwriting
import UpdateFeed.Proofs.Announcement.DryRun
import UpdateFeed.Proofs.Announcement.Printing
import UpdateFeed.Proofs.Reloading
import UpdateFeed.Proofs.Rereading
import UpdateFeed.Proofs.Document.Stretch
import UpdateFeed.Proofs.Document.Calls
import UpdateFeed.Proofs.Announcement.Redating
import UpdateFeed.Proofs.Announcement.PlatformOrder
import UpdateFeed.Proofs.Announcement.Planning
import UpdateFeed.Proofs.Announcement.Repetition
import UpdateFeed.Proofs.Announcement.Separation
import UpdateFeed.Proofs.Program
import UpdateFeed.Proofs.Template
import UpdateFeed.Proofs.Template.Placeholders
import UpdateFeed.Proofs.Text.ByteOrder
import UpdateFeed.Proofs.Toml.Scalars
import UpdateFeed.Proofs.Toml.Keys
import UpdateFeed.Proofs.Config.Overriding
import UpdateFeed.Proofs.Config.Loading
import UpdateFeed.Proofs.Announcement.Listing
import UpdateFeed.Proofs.CommandLine.Moves
import UpdateFeed.Proofs.CommandLine.LogSettings
import UpdateFeed.Proofs.CommandLine.Writing
import UpdateFeed.Proofs.CommandLine.AnyOrder
import UpdateFeed.Proofs.Log.Lines
import UpdateFeed.Proofs.Verbosity
import UpdateFeed.Proofs.Calendar.Days
import UpdateFeed.Proofs.Calendar.Timestamps
import UpdateFeed.Proofs.Path.Order
import UpdateFeed.Proofs.FileTree.Relisting
import UpdateFeed.Proofs.Signature.Reports
import UpdateFeed.Proofs.Document.LinkFree
import UpdateFeed.Proofs.VersionFiles
