import Stencil.Batch
import Stencil.Blueprint
import Stencil.Bytes
import Stencil.Compiler
import Stencil.Config.Basic
import Stencil.Config.Library
import Stencil.Config.Text
import Stencil.Decimal
import Stencil.Destination
import Stencil.Effect
import Stencil.Entries
import Stencil.Escape
import Stencil.Event
import Stencil.Flattener
import Stencil.Growth
import Stencil.Host
import Stencil.Json.Numeral
import Stencil.Json.Plain
import Stencil.Json.Reader
import Stencil.Json.Text
import Stencil.Json.Token
import Stencil.Loans
import Stencil.Lru
import Stencil.Node.Basic
import Stencil.Node.Path
import Stencil.Plan.Basic
import Stencil.Plan.Build
import Stencil.Plan.Execute
import Stencil.Pool
import Stencil.Registry
import Stencil.Reply
import Stencil.Saturating
import Stencil.Sizer
import Stencil.Table
import Stencil.Tuner
import Stencil.Proofs.Alone
import Stencil.Proofs.BatchOrder
import Stencil.Proofs.CallRecord
import Stencil.Proofs.Calls
import Stencil.Proofs.CompiledMarkup
import Stencil.Proofs.CompilerTurn
import Stencil.Proofs.Condensed
import Stencil.Proofs.ConfigReading
import Stencil.Proofs.Containment
import Stencil.Proofs.DeadEnds
import Stencil.Proofs.Delivery
import Stencil.Proofs.Deviation
import Stencil.Proofs.Draws
import Stencil.Proofs.Entities
import Stencil.Proofs.Escaping
import Stencil.Proofs.Eviction
import Stencil.Proofs.Faults
import Stencil.Proofs.FeedingFilter
import Stencil.Proofs.Flattened
import Stencil.Proofs.Flattening
import Stencil.Proofs.FrozenPages
import Stencil.Proofs.FrozenPlan
import Stencil.Proofs.Independence
import Stencil.Proofs.JsonGrammar
import Stencil.Proofs.JsonReading
import Stencil.Proofs.JsonTokens
import Stencil.Proofs.LibraryLaws
import Stencil.Proofs.LivePaths
import Stencil.Proofs.LoanMoves
import Stencil.Proofs.LoanRuns
import Stencil.Proofs.Lookup
import Stencil.Proofs.Magnitude
import Stencil.Proofs.Markup
import Stencil.Proofs.Members
import Stencil.Proofs.Overlay
import Stencil.Proofs.PlainObjects
import Stencil.Proofs.Recency
import Stencil.Proofs.Reentry
import Stencil.Proofs.RegistryChanges
import Stencil.Proofs.Regrouping
import Stencil.Proofs.Relocation
import Stencil.Proofs.Rendition
import Stencil.Proofs.Room
import Stencil.Proofs.RoundTrip
import Stencil.Proofs.RunCalls
import Stencil.Proofs.SampleRuns
import Stencil.Proofs.Segments
import Stencil.Proofs.Settling
import Stencil.Proofs.SizeBlind
import Stencil.Proofs.SizerLog
import Stencil.Proofs.SizerState
import Stencil.Proofs.Skeleton
import Stencil.Proofs.SteadyOutput
import Stencil.Proofs.Sweep
import Stencil.Proofs.Tree
import Stencil.Proofs.Unescaping
import Stencil.Proofs.Unresolved
import Stencil.Proofs.Visiting
import Stencil.Proofs.Visits
import Stencil.Proofs.WithinCapacity
