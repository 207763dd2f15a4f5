import ConstraintStreams.Action
import ConstraintStreams.Arithmetic
import ConstraintStreams.Collector.Basic
import ConstraintStreams.Collector.Parity
import ConstraintStreams.Collector.Ranking
import ConstraintStreams.Config.Basic
import ConstraintStreams.Config.Reader
import ConstraintStreams.Constraint.Basic
import ConstraintStreams.Constraint.Ledger
import ConstraintStreams.Decimal.Basic
import ConstraintStreams.Decimal.Notation
import ConstraintStreams.Decimal.Shortest
import ConstraintStreams.Error
import ConstraintStreams.Fact.Basic
import ConstraintStreams.Fact.Reader
import ConstraintStreams.Fact.Text
import ConstraintStreams.Fact.Value
import ConstraintStreams.Form
import ConstraintStreams.Formula.Basic
import ConstraintStreams.Formula.Closure
import ConstraintStreams.Formula.Reader
import ConstraintStreams.Graph.Basic
import ConstraintStreams.Graph.Blueprint
import ConstraintStreams.Graph.Catalog
import ConstraintStreams.Graph.Node
import ConstraintStreams.Graph.Stream
import ConstraintStreams.Handle
import ConstraintStreams.HashOrder
import ConstraintStreams.Hexadecimal
import ConstraintStreams.Joiner.Basic
import ConstraintStreams.Joiner.Index
import ConstraintStreams.Limits
import ConstraintStreams.Network.Basic
import ConstraintStreams.Network.Consistency
import ConstraintStreams.Network.Memory
import ConstraintStreams.Operator.Concat
import ConstraintStreams.Operator.Distinct
import ConstraintStreams.Operator.Filter
import ConstraintStreams.Operator.Flatten
import ConstraintStreams.Operator.Group
import ConstraintStreams.Operator.Join
import ConstraintStreams.Operator.Map
import ConstraintStreams.Operator.Semijoin
import ConstraintStreams.Operator.Workbench
import ConstraintStreams.Quoted
import ConstraintStreams.Quoted.Hidden
import ConstraintStreams.Score
import ConstraintStreams.Session.Basic
import ConstraintStreams.Session.Explanation
import ConstraintStreams.Session.Statistics
import ConstraintStreams.Table
import ConstraintStreams.Toml.Basic
import ConstraintStreams.Toml.Document
import ConstraintStreams.Toml.Lexical
import ConstraintStreams.Tuple.Agenda
import ConstraintStreams.Tuple.Basic
import ConstraintStreams.Tuple.Id
import ConstraintStreams.Tuple.Store
import ConstraintStreams.Proofs.Session.Call
import ConstraintStreams.Proofs.Session.Poisoning
import ConstraintStreams.Proofs.Action
import ConstraintStreams.Proofs.Graph.Declaration
import ConstraintStreams.Proofs.Collector.Tally
import ConstraintStreams.Proofs.Constraint.Ledger
import ConstraintStreams.Proofs.Graph.Linking
import ConstraintStreams.Proofs.Graph.Step
import ConstraintStreams.Proofs.Graph.WellFormed
import ConstraintStreams.Proofs.Graph.Routes
import ConstraintStreams.Proofs.Joiner.Index
import ConstraintStreams.Proofs.Network.Coherence
import ConstraintStreams.Proofs.Network.Delivery
import ConstraintStreams.Proofs.Network.Flush
import ConstraintStreams.Proofs.Network.Source
import ConstraintStreams.Proofs.Network.Weight
import ConstraintStreams.Proofs.Session.Faultless
import ConstraintStreams.Proofs.Session.Settling
import ConstraintStreams.Proofs.Session.Emptying
import ConstraintStreams.Proofs.Fact.Data
import ConstraintStreams.Proofs.Graph.Script
import ConstraintStreams.Proofs.Graph.Sharing
import ConstraintStreams.Proofs.Image.Groups
import ConstraintStreams.Proofs.Image.Network
import ConstraintStreams.Proofs.Image.Rebuild
import ConstraintStreams.Proofs.Image.Representatives
import ConstraintStreams.Proofs.Session.Observing
import ConstraintStreams.Proofs.Session.Representing
import ConstraintStreams.Proofs.Graph.Layout
import ConstraintStreams.Proofs.Graph.Visibility
import ConstraintStreams.Proofs.Session.Atomicity
import ConstraintStreams.Proofs.Session.Showing
import ConstraintStreams.Proofs.Session.Effects
import ConstraintStreams.Proofs.Session.Unfolding
import ConstraintStreams.Proofs.Session.Telling
import ConstraintStreams.Proofs.Graph.HashConsing
import ConstraintStreams.Proofs.Graph.Refusals
import ConstraintStreams.Proofs.Graph.Entering
import ConstraintStreams.Proofs.Session.Stopping
import ConstraintStreams.Proofs.Operator.Pairing
import ConstraintStreams.Proofs.Operator.Standing
import ConstraintStreams.Proofs.Operator.Grouping
import ConstraintStreams.Proofs.Session.Arities
import ConstraintStreams.Proofs.Collector.Undoing
import ConstraintStreams.Proofs.Operator.Summing
import ConstraintStreams.Proofs.Session.Weighing
import ConstraintStreams.Proofs.Operator.Classing
import ConstraintStreams.Proofs.Image.Inputs
import ConstraintStreams.Proofs.Session.Imaging
import ConstraintStreams.Proofs.Session.Comparing
import ConstraintStreams.Proofs.Network.Forwarding
import ConstraintStreams.Proofs.Fact.Identity
import ConstraintStreams.Proofs.Joiner.Multimap
import ConstraintStreams.Proofs.Graph.Registration
import ConstraintStreams.Proofs.Session.Limiting
import ConstraintStreams.Proofs.Network.Termination
import ConstraintStreams.Proofs.Score
