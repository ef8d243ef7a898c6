import Deliberation.Numeral
import Deliberation.Id
import Deliberation.Ancestry
import Deliberation.Like
import Deliberation.Text.Blank
import Deliberation.Calendar
import Deliberation.Timestamp
import Deliberation.Named
import Deliberation.Binary64
import Deliberation.Model.Discussion
import Deliberation.Model.Idea
import Deliberation.Model.Place
import Deliberation.Model.Link
import Deliberation.Model.Post
import Deliberation.Model.Change
import Deliberation.Error
import Deliberation.Text.Spans
import Deliberation.Text.Letter
import Deliberation.Text.LowerCase
import Deliberation.Text.Runs
import Deliberation.Text.Clean
import Deliberation.Text.Word
import Deliberation.Text.Preview
import Deliberation.Words.StopWords
import Deliberation.Words.Weight
import Deliberation.Words.Counter
import Deliberation.Decimal
import Deliberation.Decimal.Shortest
import Deliberation.Data.Basic
import Deliberation.Data.Json
import Deliberation.Data.Fields
import Deliberation.Model.Document
import Deliberation.Data.Reader
import Deliberation.Data.Toml.Text
import Deliberation.Data.Toml.Scalar
import Deliberation.Data.Toml.Table
import Deliberation.Data.Toml.Document
import Deliberation.Data.Toml.Render
import Deliberation.Config.Basic
import Deliberation.Config.Document
import Deliberation.Attempt
import Deliberation.Graph.WalkOrder
import Deliberation.Journal
import Deliberation.Store.Cell
import Deliberation.Store.Table
import Deliberation.Store.Version
import Deliberation.Store.Basic
import Deliberation.Store.Read
import Deliberation.Store.Adjacency
import Deliberation.Closure.Edges
import Deliberation.Store.Step
import Deliberation.Store.Write
import Deliberation.Store.Content
import Deliberation.Closure.Resolver
import Deliberation.Graph.Basic
import Deliberation.Graph.Walk
import Deliberation.Graph.Recorder
import Deliberation.Graph.Visit
import Deliberation.Aggregation.Ranking
import Deliberation.Aggregation.Basic
import Deliberation.Aggregation.Words
import Deliberation.Store.Request
import Deliberation.Store.Snapshot
import Deliberation.Session.Schema
import Deliberation.Session.Path
import Deliberation.Session.Address
import Deliberation.Session.Medium
import Deliberation.Session.Basic
import Deliberation.Session.Question
import Deliberation.Session.Maintenance
import Deliberation.Session.Fixture
import Deliberation.Proofs.Attempt
import Deliberation.Proofs.Store.Read
import Deliberation.Proofs.Store.Step
import Deliberation.Proofs.Store.Write
import Deliberation.Proofs.Session.Rollback
import Deliberation.Proofs.Aggregation.Related
import Deliberation.Proofs.Store.Legible
import Deliberation.Proofs.Session.Turn
import Deliberation.Proofs.Session.Course
import Deliberation.Proofs.Store.Outbound
import Deliberation.Proofs.Session.Outbound
import Deliberation.Proofs.Store.Readable
import Deliberation.Proofs.Session.Legible
import Deliberation.Proofs.Aggregation.Showing
import Deliberation.Proofs.Session.Action
import Deliberation.Proofs.Aggregation.Counts
import Deliberation.Proofs.Aggregation.Orphans
import Deliberation.Proofs.Aggregation.Reading
import Deliberation.Proofs.Json
import Deliberation.Proofs.Session.Deed
import Deliberation.Proofs.Session.Record
import Deliberation.Proofs.Place
import Deliberation.Proofs.Graph.Parts
import Deliberation.Proofs.Graph.Neighbors
import Deliberation.Proofs.Graph.Snapshot
import Deliberation.Proofs.Session.Snapshot
import Deliberation.Proofs.Graph.Coverage
import Deliberation.Proofs.Session.Walk
import Deliberation.Proofs.Session.Elsewhere
import Deliberation.Proofs.Closure.Agree
import Deliberation.Proofs.Aggregation.Answers
import Deliberation.Proofs.Session.Isolation
import Deliberation.Proofs.Graph.Transcript
import Deliberation.Proofs.Graph.Tree
import Deliberation.Proofs.Aggregation.Strategy
import Deliberation.Proofs.Session.Thread
import Deliberation.Proofs.Graph.Failure
import Deliberation.Proofs.Graph.TreeLike
import Deliberation.Proofs.Session.Deletion
import Deliberation.Proofs.Store.Move
import Deliberation.Proofs.Closure.Relink
import Deliberation.Proofs.Store.Children
import Deliberation.Proofs.Session.Move
import Deliberation.Proofs.Session.Children
import Deliberation.Proofs.Session.Relink
import Deliberation.Proofs.Aggregation.Nested
import Deliberation.Proofs.Aggregation.Ranking
import Deliberation.Proofs.Aggregation.Contributors
import Deliberation.Proofs.Aggregation.Facts
import Deliberation.Proofs.Session.Facts
import Deliberation.Proofs.Store.Siblings
import Deliberation.Proofs.Session.Siblings
import Deliberation.Proofs.Text.Blank
import Deliberation.Proofs.Text.Clean
import Deliberation.Proofs.Aggregation.Words
import Deliberation.Proofs.Binary64
import Deliberation.Proofs.Config
import Deliberation.Proofs.Session.Words
import Deliberation.Proofs.Text.Escape
import Deliberation.Proofs.Text.WordBreak
import Deliberation.Proofs.Text.Preview
import Deliberation.Proofs.Closure.Layers
import Deliberation.Proofs.Evaluation
import Deliberation.Proofs.Words.Counted
