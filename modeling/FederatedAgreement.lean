import FederatedAgreement.Action
import FederatedAgreement.Action.Codec
import FederatedAgreement.Analysis.Cache
import FederatedAgreement.Analysis.Mask
import FederatedAgreement.Analysis.Quorums
import FederatedAgreement.Analysis.Report
import FederatedAgreement.Benchmark
import FederatedAgreement.CommandLine
import FederatedAgreement.Consensus
import FederatedAgreement.Decimal.Shortest
import FederatedAgreement.Decimal.Written
import FederatedAgreement.Digest.Sha256
import FederatedAgreement.Document.Basic
import FederatedAgreement.Document.Field
import FederatedAgreement.Document.Json
import FederatedAgreement.Document.Literal
import FederatedAgreement.Document.Scalar
import FederatedAgreement.Engine
import FederatedAgreement.Event
import FederatedAgreement.Event.Codec
import FederatedAgreement.Fault
import FederatedAgreement.Logging
import FederatedAgreement.Network
import FederatedAgreement.Outcome
import FederatedAgreement.Overlay
import FederatedAgreement.QuorumSet.Basic
import FederatedAgreement.QuorumSet.Codec
import FederatedAgreement.QuorumSet.Satisfaction
import FederatedAgreement.QuorumSet.Slices
import FederatedAgreement.Roster
import FederatedAgreement.Scenario.Basic
import FederatedAgreement.Scenario.Builtin
import FederatedAgreement.Scenario.Codec
import FederatedAgreement.Settings.Basic
import FederatedAgreement.Settings.Load
import FederatedAgreement.Simulation.Basic
import FederatedAgreement.Simulation.Step
import FederatedAgreement.Sorting.Ascending
import FederatedAgreement.Sorting.SortedSet
import FederatedAgreement.Text.Integer
import FederatedAgreement.Text.Printable
import FederatedAgreement.Text.Quoted
import FederatedAgreement.Vote
import FederatedAgreement.Vote.Codec
import FederatedAgreement.Voting.Protocol
import FederatedAgreement.Voting.State
import FederatedAgreement.Main
import FederatedAgreement.Proofs.QuorumSet.Slices
import FederatedAgreement.Proofs.QuorumSet.Blocking
import FederatedAgreement.Proofs.Voting.Coherence
import FederatedAgreement.Proofs.Network.Changes
import FederatedAgreement.Proofs.Network.Authenticity
import FederatedAgreement.Proofs.Agreement.Byzantine
import FederatedAgreement.Proofs.Analysis.Masks
import FederatedAgreement.Proofs.Analysis.Quorums
import FederatedAgreement.Proofs.Analysis.Order
import FederatedAgreement.Proofs.Network.Consensus
import FederatedAgreement.Proofs.Agreement.QuorumIntersection
import FederatedAgreement.Proofs.Simulation.Commands
import FederatedAgreement.Proofs.Simulation.Replay
import FederatedAgreement.Proofs.Simulation.Rewind
import FederatedAgreement.Proofs.Simulation.History
import FederatedAgreement.Proofs.Analysis.Dispensable
import FederatedAgreement.Proofs.Analysis.Befouled
import FederatedAgreement.Proofs.Network.Provenance
import FederatedAgreement.Proofs.Voting.Exhaustion
import FederatedAgreement.Proofs.Voting.Spreading
import FederatedAgreement.Proofs.Network.Queue
import FederatedAgreement.Proofs.Network.Dissemination
import FederatedAgreement.Proofs.Network.Quiescence
import FederatedAgreement.Proofs.Network.Reachable
import FederatedAgreement.Proofs.Voting.Announcements
import FederatedAgreement.Proofs.Network.Components
import FederatedAgreement.Proofs.Simulation.Settling
import FederatedAgreement.Proofs.Agreement.Election
import FederatedAgreement.Proofs.Network.Setups
import FederatedAgreement.Proofs.Scenario.RoundTrip
import FederatedAgreement.Proofs.Scenario.Export
import FederatedAgreement.Proofs.Text.Words
import FederatedAgreement.Proofs.QuorumSet.Alike
import FederatedAgreement.Proofs.Analysis.Structure
import FederatedAgreement.Proofs.Analysis.Cache
import FederatedAgreement.Proofs.Action.Texts
import FederatedAgreement.Proofs.Action.Identification
import FederatedAgreement.Proofs.Simulation.Reuse
import FederatedAgreement.Proofs.Network.Grounds
import FederatedAgreement.Proofs.Network.Validity
import FederatedAgreement.Proofs.Network.Isolation
import FederatedAgreement.Proofs.Simulation.Reload
import FederatedAgreement.Proofs.Network.Deeds
import FederatedAgreement.Proofs.Network.Accounts
import FederatedAgreement.Proofs.Network.Removal
import FederatedAgreement.Proofs.Voting.Counting
import FederatedAgreement.Proofs.Network.Repetition
import FederatedAgreement.Proofs.Scenario.OtherOverlay
import FederatedAgreement.Proofs.Network.Interleaving
import FederatedAgreement.Proofs.Voting.Gathering
import FederatedAgreement.Proofs.Analysis.Minimal
import FederatedAgreement.Proofs.QuorumSet.Minimal
import FederatedAgreement.Proofs.Analysis.Arrangement
import FederatedAgreement.Proofs.Network.Links
import FederatedAgreement.Proofs.Simulation.Pending
import FederatedAgreement.Proofs.Analysis.Identification
import FederatedAgreement.Proofs.Simulation.Verdict
import FederatedAgreement.Proofs.Network.Loading
import FederatedAgreement.Proofs.Settings.Acceptance
