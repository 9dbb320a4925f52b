import ComponentStories.Definition.Json
import ComponentStories.Main
import ComponentStories.Proofs.Document.Influence
import ComponentStories.Proofs.Document.Story
import ComponentStories.Proofs.Document.Unambiguous
import ComponentStories.Store.Memory
import ComponentStories.Proofs.Argument.Order
import ComponentStories.Proofs.Component.Source
import ComponentStories.Proofs.Document.Arguments
import ComponentStories.Proofs.Component.Generate
import ComponentStories.Proofs.Component.Interleaving
import ComponentStories.Proofs.FileSystem.Path
import ComponentStories.Proofs.FileSystem.Tree
import ComponentStories.Proofs.FileSystem.Change
import ComponentStories.Proofs.FileSystem.Walk
import ComponentStories.Proofs.FileName
import ComponentStories.Proofs.Site.Templates
import ComponentStories.Proofs.Site.Generate
import ComponentStories.Proofs.Site.History
import ComponentStories.Proofs.FileSystem.Parts
import ComponentStories.Proofs.Component.Configured
import ComponentStories.Proofs.Component.Found
import ComponentStories.Proofs.Component.Places
import ComponentStories.Proofs.Command.Run
import ComponentStories.Proofs.Component.Frame
import ComponentStories.Proofs.FileSystem.Grows
import ComponentStories.Proofs.Site.Confined
import ComponentStories.Proofs.Component.Written
import ComponentStories.Proofs.Site.Awaited
import ComponentStories.Proofs.Site.Pipeline
import ComponentStories.Proofs.Component.Settled
import ComponentStories.Proofs.Site.Naming
import ComponentStories.Proofs.Component.Scan
import ComponentStories.Proofs.Template.Groups
import ComponentStories.Proofs.Template.Sections
import ComponentStories.Proofs.Component.Outcomes
import ComponentStories.Proofs.FileSystem.Write
import ComponentStories.Proofs.Site.Outcomes
import ComponentStories.Proofs.Text.Bytes
import ComponentStories.Proofs.FileSystem.Ascending
import ComponentStories.Proofs.Site.Discovery
import ComponentStories.Proofs.Template.Pairs
import ComponentStories.Proofs.Template.Hidden
import ComponentStories.Proofs.Template.Lone
import ComponentStories.Proofs.Argument.Select
import ComponentStories.Proofs.Template.WellFormed
import ComponentStories.Proofs.Json.Reread
import ComponentStories.Proofs.Json.Integer
import ComponentStories.Proofs.StoriesFile
import ComponentStories.Proofs.FileSystem.Below
import ComponentStories.Proofs.Site.Suffix
import ComponentStories.Proofs.Definition.Blank
import ComponentStories.Proofs.Definition.Normal
import ComponentStories.Proofs.Json.Ordered
import ComponentStories.Proofs.Component.Defaults
import ComponentStories.Proofs.Argument.Default
import ComponentStories.Proofs.Component.Schedule
import ComponentStories.Proofs.Component.Isolation
import ComponentStories.Proofs.Command.Report
import ComponentStories.Proofs.Component.Present
import ComponentStories.Proofs.Component.Failures
import ComponentStories.Proofs.Component.Provider
import ComponentStories.Proofs.Command.Scaffold
import ComponentStories.Proofs.Definition.Map
import ComponentStories.Proofs.FileName.Bytes
