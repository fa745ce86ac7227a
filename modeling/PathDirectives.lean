import PathDirectives.Config.Stored
import PathDirectives.Main
import PathDirectives.Proofs.Counters
import PathDirectives.Proofs.Register
import PathDirectives.Proofs.Ledger
import PathDirectives.Proofs.Queue
import PathDirectives.Proofs.Steps
import PathDirectives.Proofs.Completions
import PathDirectives.Proofs.WindowDates
import PathDirectives.Proofs.Releases
import PathDirectives.Proofs.Requests
import PathDirectives.Proofs.Installation
import PathDirectives.Proofs.Drain
import PathDirectives.Proofs.Reach
import PathDirectives.Proofs.CompiledPaths
import PathDirectives.Proofs.Losses
import PathDirectives.Proofs.Watches
import PathDirectives.Proofs.Errand
import PathDirectives.Proofs.Tracking
import PathDirectives.Proofs.Advances
import PathDirectives.Proofs.WrittenComments
import PathDirectives.Proofs.CanonicalForm
import PathDirectives.Proofs.RangeMeaning
import PathDirectives.Proofs.BraceExpansion
import PathDirectives.Proofs.LineSlices
import PathDirectives.Proofs.GateScope
import PathDirectives.Proofs.Isolation
import PathDirectives.Proofs.Simultaneous
import PathDirectives.Proofs.Proration
import PathDirectives.Proofs.Staging
import PathDirectives.Proofs.SelfExclusion
import PathDirectives.Proofs.PathHistory
import PathDirectives.Proofs.Reprioritising
import PathDirectives.Proofs.Injection
import PathDirectives.Proofs.Segments
import PathDirectives.Proofs.GraphHistory
import PathDirectives.Proofs.Backlog
import PathDirectives.Proofs.EscapedQuotes
import PathDirectives.Proofs.ProcessFilters
import PathDirectives.Proofs.Delays
