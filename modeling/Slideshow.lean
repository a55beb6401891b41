import Slideshow.Animation.Blend
import Slideshow.Animation.Color
import Slideshow.Animation.Ease
import Slideshow.Animation.Template
import Slideshow.CommandLine.Arguments
import Slideshow.CommandLine.Outcome
import Slideshow.CommandLine.Request
import Slideshow.CommandLine.Run
import Slideshow.Decimal.Binary
import Slideshow.Decimal.Layout
import Slideshow.Decimal.Numeral
import Slideshow.Decimal.Shortest
import Slideshow.Decimal.Text
import Slideshow.Dict
import Slideshow.Failure
import Slideshow.Files.Access
import Slideshow.Files.Location
import Slideshow.Files.Tree
import Slideshow.Geometry.Rect
import Slideshow.Json.Basic
import Slideshow.Json.Numeral
import Slideshow.Json.Reader
import Slideshow.Json.Record
import Slideshow.Json.Token
import Slideshow.Json.Writer
import Slideshow.Library.Basic
import Slideshow.Library.Check
import Slideshow.Library.Listing
import Slideshow.Main
import Slideshow.Markup.Character
import Slideshow.Markup.Chunk
import Slideshow.Markup.Document
import Slideshow.Markup.Reference
import Slideshow.Markup.Token
import Slideshow.Markup.Tree
import Slideshow.Navigation
import Slideshow.Path.Arc
import Slideshow.Path.Arclength
import Slideshow.Path.Data
import Slideshow.Path.Segment
import Slideshow.Picture.Drawing
import Slideshow.Picture.Length
import Slideshow.Picture.Outline
import Slideshow.Picture.Scaling
import Slideshow.Picture.Shape
import Slideshow.Picture.Size
import Slideshow.Picture.Style
import Slideshow.Picture.Trace
import Slideshow.Picture.Transform
import Slideshow.Presentation
import Slideshow.Proofs.Decimal.Finite
import Slideshow.Proofs.Decimal.Sign
import Slideshow.Proofs.Dict
import Slideshow.Proofs.Json.Canonical
import Slideshow.Proofs.Json.Fields
import Slideshow.Proofs.Json.Members
import Slideshow.Proofs.Navigation.Moves
import Slideshow.Proofs.Navigation.Order
import Slideshow.Proofs.Navigation.Observers
import Slideshow.Proofs.Presentation.Actions
import Slideshow.Proofs.Presentation.Control
import Slideshow.Proofs.Presentation.EventLog
import Slideshow.Proofs.Presentation.History
import Slideshow.Proofs.Presentation.Loading
import Slideshow.Proofs.Presentation.Operation
import Slideshow.Proofs.Presentation.Outcome
import Slideshow.Proofs.Presentation.Playing
import Slideshow.Proofs.Presentation.Refusal
import Slideshow.Proofs.Presentation.Settling
import Slideshow.Proofs.Presentation.Showing
import Slideshow.Proofs.Presentation.Untouched
import Slideshow.Proofs.Scene.Cell
import Slideshow.Proofs.Scene.Change
import Slideshow.Proofs.Scene.Index
import Slideshow.Proofs.Scene.Import
import Slideshow.Proofs.Scene.Coherence
import Slideshow.Proofs.Scene.Spared
import Slideshow.Proofs.Scene.Condense
import Slideshow.Proofs.Scene.Tags
import Slideshow.Proofs.Scene.Watch
import Slideshow.Proofs.Store.Change
import Slideshow.Proofs.Store.Faithful
import Slideshow.Proofs.Store.Exact
import Slideshow.Proofs.Store.Spelling
import Slideshow.Proofs.Timeline.Changes
import Slideshow.Proofs.Timeline.Completion
import Slideshow.Proofs.Timeline.Driving
import Slideshow.Proofs.Timeline.Layout
import Slideshow.Proofs.Timeline.Playback
import Slideshow.Proofs.Timeline.Sequential
import Slideshow.Proofs.Topic.Acceptance
import Slideshow.Proofs.Topic.Checks
import Slideshow.Proofs.Topic.Directives
import Slideshow.Proofs.Topic.Numbers
import Slideshow.Proofs.Topic.Paths
import Slideshow.Proofs.Topic.Reading
import Slideshow.Proofs.Topic.Saving
import Slideshow.Proofs.Topic.Soundness
import Slideshow.Proofs.Topic.WellFormed
import Slideshow.Scalar
import Slideshow.Scene.Basic
import Slideshow.Scene.Document
import Slideshow.Scene.Reference
import Slideshow.Scene.Stage
import Slideshow.Settings
import Slideshow.Store
import Slideshow.Text.Blank
import Slideshow.Text.Pieces
import Slideshow.Timeline.Clock
import Slideshow.Timeline.Plan
import Slideshow.Timeline.Player
import Slideshow.Timeline.Tween
import Slideshow.Timeline.Writer
import Slideshow.Topic.Basic
import Slideshow.Topic.Component
import Slideshow.Topic.Loading
import Slideshow.Topic.PathSpec
import Slideshow.Topic.Phase
import Slideshow.Topic.Problem
import Slideshow.Topic.Reader
import Slideshow.Topic.Validation
import Slideshow.Topic.Writer
import Slideshow.Walk
import Slideshow.Proofs.Timeline.Course
import Slideshow.Proofs.Timeline.Resting
import Slideshow.Proofs.Markup.Spelling
import Slideshow.Proofs.Scene.Escape
import Slideshow.Proofs.Scene.Written
import Slideshow.Proofs.Markup.Sound
import Slideshow.Proofs.Scene.Joined
import Slideshow.Proofs.Scene.Reread
import Slideshow.Proofs.Scene.RoundTrip
import Slideshow.Proofs.Decimal.Order
import Slideshow.Proofs.Timeline.Queue
import Slideshow.Proofs.Timeline.Steps
import Slideshow.Proofs.Timeline.Pulses
import Slideshow.Proofs.Timeline.Tokens
import Slideshow.Proofs.Timeline.Hiding
import Slideshow.Proofs.Scene.Unambiguous
import Slideshow.Proofs.Timeline.Forward
import Slideshow.Proofs.Timeline.Turns
import Slideshow.Proofs.Scene.Inside
import Slideshow.Proofs.Scene.Arena
import Slideshow.Proofs.Scene.InPlace
import Slideshow.Proofs.Scene.Allotment
import Slideshow.Proofs.Scene.Subtree
import Slideshow.Proofs.Topic.Places
import Slideshow.Proofs.Topic.Locality
import Slideshow.Proofs.Presentation.Walking
import Slideshow.Proofs.Timeline.Recording
import Slideshow.Proofs.Timeline.Passing
import Slideshow.Proofs.Timeline.Calls
import Slideshow.Proofs.Decimal.Span
import Slideshow.Proofs.Timeline.Elapsed
import Slideshow.Proofs.Animation.Hexadecimal
import Slideshow.Proofs.Timeline.Handles
import Slideshow.Proofs.Animation.Bytes
import Slideshow.Proofs.Animation.Seams
import Slideshow.Proofs.Decimal.Exact
import Slideshow.Proofs.Animation.Written
import Slideshow.Proofs.Decimal.Mixing
import Slideshow.Proofs.Animation.Frames
import Slideshow.Proofs.Animation.Curves
import Slideshow.Proofs.Timeline.Cycles
import Slideshow.Proofs.Scene.Emphasis
