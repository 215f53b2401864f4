import PayloadGate.Analysis
import PayloadGate.Catalog.Warehouse
import PayloadGate.Collection
import PayloadGate.Decimal.Binary64
import PayloadGate.Decimal.Shortest
import PayloadGate.Decimal.Unsigned
import PayloadGate.Failure
import PayloadGate.Gate.Checker
import PayloadGate.Gate.Evidence
import PayloadGate.Gate.Selector
import PayloadGate.Job
import PayloadGate.Json.Parser
import PayloadGate.Json.Printer
import PayloadGate.Json.Value
import PayloadGate.Junit.Reader
import PayloadGate.Junit.Suite
import PayloadGate.Junit.Verdict
import PayloadGate.Junit.Writer
import PayloadGate.Main
import PayloadGate.Markup.Node
import PayloadGate.Markup.Reference
import PayloadGate.Markup.Token
import PayloadGate.Program.Course
import PayloadGate.Program.Log
import PayloadGate.Proofs.Analysis.Arrival
import PayloadGate.Proofs.Analysis.Gate
import PayloadGate.Proofs.Analysis.Gathering
import PayloadGate.Proofs.Analysis.Handed
import PayloadGate.Proofs.Analysis.LeftOut
import PayloadGate.Proofs.Analysis.Listed
import PayloadGate.Proofs.Analysis.Log
import PayloadGate.Proofs.Analysis.Moves
import PayloadGate.Proofs.Analysis.Report
import PayloadGate.Proofs.Analysis.Signal
import PayloadGate.Proofs.Collection.Channel
import PayloadGate.Proofs.Collection.Course
import PayloadGate.Proofs.Collection.Gather
import PayloadGate.Proofs.Collection.Ledger
import PayloadGate.Proofs.Collection.Moves
import PayloadGate.Proofs.Collection.Signal
import PayloadGate.Proofs.Decimal.Order
import PayloadGate.Proofs.Decimal.Rounding
import PayloadGate.Proofs.Decimal.Shortest
import PayloadGate.Proofs.Gate.Arrival
import PayloadGate.Proofs.Gate.Buckets
import PayloadGate.Proofs.Gate.Evidence
import PayloadGate.Proofs.Gate.Executed
import PayloadGate.Proofs.Gate.Report
import PayloadGate.Proofs.Gate.Synthetic
import PayloadGate.Proofs.Json.Spelling
import PayloadGate.Proofs.Junit.Counts
import PayloadGate.Proofs.Junit.Deciding
import PayloadGate.Proofs.Junit.FailureLines
import PayloadGate.Proofs.Junit.Fields
import PayloadGate.Proofs.Junit.Layout
import PayloadGate.Proofs.Junit.Places
import PayloadGate.Proofs.Junit.Roundtrip
import PayloadGate.Proofs.Junit.Trails
import PayloadGate.Proofs.Junit.UpToDate
import PayloadGate.Proofs.Markup.Document
import PayloadGate.Proofs.Markup.Reference
import PayloadGate.Proofs.Markup.Written
import PayloadGate.Proofs.Readiness.Polls
import PayloadGate.Proofs.Retry.Attempts
import PayloadGate.Proofs.Retry.Signal
import PayloadGate.Proofs.Run.Directory
import PayloadGate.Proofs.Run.NextId
import PayloadGate.Proofs.Run.Resolve
import PayloadGate.Proofs.Run.Results
import PayloadGate.Proofs.Run.Scan
import PayloadGate.Proofs.Run.Written
import PayloadGate.Proofs.Search.Answer
import PayloadGate.Proofs.Search.Beyond
import PayloadGate.Proofs.Search.Complete
import PayloadGate.Proofs.Search.Finds
import PayloadGate.Proofs.Search.FromStart
import PayloadGate.Proofs.Search.Journal
import PayloadGate.Proofs.Search.Moves
import PayloadGate.Proofs.Search.Pace
import PayloadGate.Proofs.Search.Session
import PayloadGate.Proofs.Search.Stop
import PayloadGate.Proofs.Search.Underway
import PayloadGate.Proofs.Search.Unfinished
import PayloadGate.Proofs.Settings.Accepted
import PayloadGate.Proofs.Settings.Prefixes
import PayloadGate.Proofs.Settings.PullRequest
import PayloadGate.Proofs.Settings.Selection
import PayloadGate.Proofs.Store.Agreement
import PayloadGate.Proofs.Store.Behind
import PayloadGate.Proofs.Store.Exchange
import PayloadGate.Proofs.Store.Remote
import PayloadGate.Proofs.Store.Restart
import PayloadGate.Proofs.Store.Snapshot
import PayloadGate.Proofs.Store.Steady
import PayloadGate.Proofs.System.Course
import PayloadGate.Proofs.System.Rounds
import PayloadGate.Proofs.Text.Encoding
import PayloadGate.Proofs.Text.Keys
import PayloadGate.Proofs.Text.Trim
import PayloadGate.Proofs.Time.Calendar
import PayloadGate.Proofs.Time.Stamps
import PayloadGate.Proofs.Walk.Canonical
import PayloadGate.Proofs.Walk.Found
import PayloadGate.Proofs.Walk.Heeded
import PayloadGate.Proofs.Walk.Listings
import PayloadGate.Proofs.Walk.Pass
import PayloadGate.Proofs.Walk.Progress
import PayloadGate.Proofs.Walk.Run
import PayloadGate.Proofs.Walk.Seed
import PayloadGate.Proofs.Walk.Simulation
import PayloadGate.Proofs.Walk.Steps
import PayloadGate.Proofs.Yaml.Scalar
import PayloadGate.Readiness
import PayloadGate.Rehearsal.Analysis
import PayloadGate.Rehearsal.Bucket
import PayloadGate.Rehearsal.Collection
import PayloadGate.Rehearsal.Directory
import PayloadGate.Rehearsal.Program
import PayloadGate.Rehearsal.Script
import PayloadGate.Rehearsal.Search
import PayloadGate.Rehearsal.Timeline
import PayloadGate.Retry
import PayloadGate.Run.Descriptor
import PayloadGate.Run.JobRun
import PayloadGate.Run.Labels
import PayloadGate.Run.Resolver
import PayloadGate.Run.Results
import PayloadGate.RunId
import PayloadGate.Search
import PayloadGate.Settings.Config
import PayloadGate.Settings.EnvFile
import PayloadGate.Settings.EnvLines
import PayloadGate.Settings.Fault
import PayloadGate.Settings.Settings
import PayloadGate.Store.Cursor
import PayloadGate.Store.Listing
import PayloadGate.Store.Memory
import PayloadGate.Store.ObjectStore
import PayloadGate.Store.Pages
import PayloadGate.Store.Remote
import PayloadGate.Text.Blank
import PayloadGate.Text.Utf8
import PayloadGate.Time.Calendar
import PayloadGate.Time.Instant
import PayloadGate.Time.Stamp
import PayloadGate.Walk.Classify
import PayloadGate.Walk.Walker
import PayloadGate.Yaml.Scalar
