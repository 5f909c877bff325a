import Montage.Clip.Basic
import Montage.Clip.EditGraph
import Montage.Clip.Sanitize
import Montage.Command
import Montage.CommandLine.Failure
import Montage.CommandLine.Perform
import Montage.CommandLine.Printing
import Montage.CommandLine.Program
import Montage.CommandLine.Reading
import Montage.CommandLine.Request
import Montage.Composite
import Montage.Concat
import Montage.Disk.Basic
import Montage.Disk.Change
import Montage.Disk.Contents
import Montage.Disk.Launch
import Montage.Disk.Temporary
import Montage.Disk.Walk
import Montage.Encoder.Announcement
import Montage.Encoder.Line
import Montage.Encoder.Message
import Montage.Encoder.Process
import Montage.Encoder.ProcessRegistry
import Montage.Encoder.StreamDescription
import Montage.Encoder.Transcript
import Montage.Engine.Compile
import Montage.Engine.Edit
import Montage.Engine.Operate
import Montage.Engine.Request
import Montage.Engine.Run
import Montage.Engine.Slots
import Montage.Engine.TrackList
import Montage.Engine.Workbench
import Montage.Error
import Montage.Frame
import Montage.Graph.Clause
import Montage.Graph.Pad
import Montage.Identifier
import Montage.Json.Basic
import Montage.Json.Object
import Montage.Json.Printing
import Montage.Json.Reading
import Montage.Json.Record
import Montage.Main
import Montage.MediaFile
import Montage.Number.Binary
import Montage.Number.Fixed
import Montage.Number.Pattern
import Montage.Number.Reading
import Montage.Number.Shortest
import Montage.Output.Bitrate
import Montage.Output.Contribution
import Montage.Output.Directive
import Montage.Output.FanOut
import Montage.Output.Target
import Montage.Output.Wiring
import Montage.Path
import Montage.Playlist.Reference
import Montage.Playlist.Rename
import Montage.Probe.Report
import Montage.Probe.Streams
import Montage.Profile.Basic
import Montage.Profile.Kind
import Montage.Profile.Members
import Montage.Profile.Properties
import Montage.Profile.Registry
import Montage.Proofs.AbsolutePath
import Montage.Proofs.Clip.Doubles
import Montage.Proofs.Clip.Durations
import Montage.Proofs.Clip.EditGraph
import Montage.Proofs.Clip.OneSource
import Montage.Proofs.Clip.Runs
import Montage.Proofs.Clip.Sanitize
import Montage.Proofs.CommandText
import Montage.Proofs.Composite.FragmentText
import Montage.Proofs.Concat.Balance
import Montage.Proofs.Concat.FragmentText
import Montage.Proofs.Concat.StreamReferences
import Montage.Proofs.Concat.WrittenPads
import Montage.Proofs.Disk.Entry
import Montage.Proofs.Disk.LastName
import Montage.Proofs.Disk.Lasting
import Montage.Proofs.Disk.LinkLimit
import Montage.Proofs.Disk.Refusal
import Montage.Proofs.Disk.Removal
import Montage.Proofs.Disk.Renaming
import Montage.Proofs.Disk.Replacing
import Montage.Proofs.Disk.Temporary
import Montage.Proofs.Disk.Walk
import Montage.Proofs.Encoder.Collection
import Montage.Proofs.Encoder.OpeningLine
import Montage.Proofs.Encoder.OutputLine
import Montage.Proofs.Encoder.ProcessRegistry
import Montage.Proofs.Engine.Cleanup
import Montage.Proofs.Engine.ConcatInputs
import Montage.Proofs.Engine.DryRun
import Montage.Proofs.Engine.EditClips
import Montage.Proofs.Engine.EditReferences
import Montage.Proofs.Engine.EditWiring
import Montage.Proofs.Engine.ListedInputs
import Montage.Proofs.Engine.Parameters
import Montage.Proofs.Engine.Run
import Montage.Proofs.Engine.Slots
import Montage.Proofs.Engine.Tidy
import Montage.Proofs.Engine.TrackList
import Montage.Proofs.Engine.Tracking
import Montage.Proofs.Engine.Values
import Montage.Proofs.Engine.Work
import Montage.Proofs.Graph.FilterNames
import Montage.Proofs.Graph.FilterText
import Montage.Proofs.Graph.GraphText
import Montage.Proofs.Graph.PadName
import Montage.Proofs.Graph.Thread
import Montage.Proofs.Identifier
import Montage.Proofs.LastName
import Montage.Proofs.Lookup
import Montage.Proofs.Numeral
import Montage.Proofs.Outcome
import Montage.Proofs.Output.CopiedStreams
import Montage.Proofs.Output.Delivery
import Montage.Proofs.Output.Division
import Montage.Proofs.Output.FanOut
import Montage.Proofs.Output.FreshTargets
import Montage.Proofs.Output.NestedGraphs
import Montage.Proofs.Output.OwnOutput
import Montage.Proofs.Output.Reading
import Montage.Proofs.Output.Roles
import Montage.Proofs.Output.SegmentSuffixes
import Montage.Proofs.Output.StrayTargets
import Montage.Proofs.Output.StreamMap
import Montage.Proofs.Output.VariantCodecs
import Montage.Proofs.Output.Variants
import Montage.Proofs.Output.Wiring
import Montage.Proofs.Path
import Montage.Proofs.Playlist.Attribute
import Montage.Proofs.Playlist.FileList
import Montage.Proofs.Playlist.Following
import Montage.Proofs.Playlist.LineByLine
import Montage.Proofs.Playlist.Reference
import Montage.Proofs.Playlist.Renaming
import Montage.Proofs.Playlist.Renewal
import Montage.Proofs.Playlist.SegmentOrder
import Montage.Proofs.Playlist.Siblings
import Montage.Proofs.Playlist.Tracing
import Montage.Proofs.Profile.Details
import Montage.Proofs.Profile.Layout
import Montage.Proofs.Profile.Loading
import Montage.Proofs.Profile.Owner
import Montage.Proofs.Profile.PhysicalLines
import Montage.Proofs.Profile.RoundTrip
import Montage.Proofs.Profile.TrailingBlanks
import Montage.Proofs.Template
import Montage.Proofs.Template.Elements
import Montage.Proofs.Template.Idempotence
import Montage.Proofs.Template.Splicing
import Montage.Proofs.Template.Values
import Montage.Proofs.Text.Decimal
import Montage.Proofs.Text.Lines
import Montage.Proofs.Text.Replacement
import Montage.Proofs.Text.Search
import Montage.Proofs.Text.Split
import Montage.Proofs.Words
import Montage.Proofs.Words.Grammar
import Montage.Proofs.Words.Loose
import Montage.Proofs.Words.ReadBack
import Montage.Settings
import Montage.Template.Arguments
import Montage.Template.Basic
import Montage.Template.Fragment
import Montage.Text.Blank
import Montage.Text.Digit
import Montage.Text.Hidden
import Montage.Text.Quoted
import Montage.Text.Search
import Montage.Timestamp
import Montage.Timing
import Montage.Words
