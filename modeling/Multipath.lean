import Multipath.Batch.Assignment
import Multipath.Batch.Relaxation
import Multipath.Batch.Rounding
import Multipath.Config.Basic
import Multipath.Config.Document
import Multipath.Config.File
import Multipath.Connection.Basic
import Multipath.Connection.Flush
import Multipath.Connection.Recovery
import Multipath.Connection.SendLoop
import Multipath.Decimal.Binary
import Multipath.Decimal.Shortest
import Multipath.Draws
import Multipath.Error
import Multipath.Frame
import Multipath.Identifier
import Multipath.Journal
import Multipath.Json.Codec
import Multipath.Json.Value
import Multipath.Learning.Agent
import Multipath.Learning.Experience
import Multipath.Learning.Observation
import Multipath.Linear.Basis
import Multipath.Linear.DualSimplex
import Multipath.Linear.Factors
import Multipath.Linear.Number
import Multipath.Linear.Program
import Multipath.Linear.Sparse
import Multipath.Linear.Triangle
import Multipath.Packet
import Multipath.Path.Basic
import Multipath.Path.Set
import Multipath.Proofs.Receiver.History
import Multipath.Proofs.Receiver.Runs
import Multipath.Ranking
import Multipath.Receiver.Basic
import Multipath.Receiver.History
import Multipath.Scheduler.Basic
import Multipath.Scheduler.Selection
import Multipath.Scheduler.Strategy
import Multipath.Session.Basic
import Multipath.Session.Scripted
import Multipath.Tally
import Multipath.Text.Blank
import Multipath.Text.Hexadecimal
import Multipath.Text.Reader
import Multipath.Time
import Multipath.Time.Text
import Multipath.Toml.Calendar
import Multipath.Toml.Document
import Multipath.Toml.Layout
import Multipath.Toml.Number
import Multipath.Toml.Quoted
import Multipath.Toml.Tree
import Multipath.Toml.Value
import Multipath.Proofs.Receiver.Reports
import Multipath.Proofs.Receiver.Triggers
import Multipath.Proofs.Connection.Actions
import Multipath.Proofs.Connection.Steps
import Multipath.Proofs.Connection.Answers
import Multipath.Proofs.Session.Packing
import Multipath.Proofs.Connection.Acknowledgements
import Multipath.Proofs.Receiver.Recording
import Multipath.Proofs.Path.Queues
import Multipath.Proofs.Connection.Rounds
import Multipath.Proofs.Scheduler.Choices
import Multipath.Proofs.Connection.Handshakes
import Multipath.Proofs.Scheduler.Levels
import Multipath.Proofs.Scheduler.Quotas
import Multipath.Proofs.Session.Spending
import Multipath.Proofs.Connection.Weights
import Multipath.Proofs.Connection.Endings
import Multipath.Proofs.Connection.Steadiness
import Multipath.Proofs.Connection.Draining
import Multipath.Proofs.Batch.Integrality
import Multipath.Proofs.Batch.Optimality
import Multipath.Proofs.Batch.Relaxed
import Multipath.Proofs.Batch.Rounding
import Multipath.Proofs.Batch.Average
import Multipath.Proofs.Batch.Budget
import Multipath.Proofs.Config.Bounds
import Multipath.Proofs.Batch.Limits
import Multipath.Proofs.Decimal.Adding
import Multipath.Proofs.Decimal.Signs
import Multipath.Proofs.Scheduler.Fresh
import Multipath.Proofs.Connection.Accounting
import Multipath.Proofs.Config.Files
import Multipath.Proofs.Receiver.Idleness
import Multipath.Proofs.Receiver.Deadlines
import Multipath.Proofs.Receiver.Orders
import Multipath.Proofs.Receiver.Refusals
import Multipath.Proofs.Connection.Dues
import Multipath.Proofs.Batch.Timely
import Multipath.Proofs.Batch.Room
import Multipath.Proofs.Batch.Readiness
import Multipath.Proofs.Scheduler.Best
import Multipath.Proofs.Scheduler.Fairness
import Multipath.Proofs.Connection.Strays
import Multipath.Proofs.Connection.Hedging
import Multipath.Proofs.Scheduler.Consulting
import Multipath.Proofs.Learning.Records
import Multipath.Proofs.Connection.Overflows
import Multipath.Proofs.Session.LastPieces
import Multipath.Proofs.Connection.Episodes
import Multipath.Proofs.Batch.Drawn
import Multipath.Proofs.Batch.Deferrals
import Multipath.Proofs.Batch.ByDeadline
import Multipath.Proofs.Connection.Updates
import Multipath.Proofs.Decimal.Levels
import Multipath.Proofs.Batch.Largest
