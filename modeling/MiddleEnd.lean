import MiddleEnd.Data
import MiddleEnd.Tree.Equality
import MiddleEnd.Check.Program
import MiddleEnd.Passes.Optimizer
import MiddleEnd.Manifest.Storage
import MiddleEnd.Proofs.Types.Signature
import MiddleEnd.Proofs.Types.Unfolding
import MiddleEnd.Proofs.Types.SameType
import MiddleEnd.Proofs.Passes.Blocks
import MiddleEnd.Proofs.Passes.Fold
import MiddleEnd.Proofs.Passes.Owned
import MiddleEnd.Proofs.Passes.OneRound
import MiddleEnd.Proofs.Passes.Reports
import MiddleEnd.Proofs.Passes.Convergence
import MiddleEnd.Proofs.Passes.Removal
import MiddleEnd.Proofs.Passes.NormalForm
import MiddleEnd.Proofs.Passes.Effects
import MiddleEnd.Proofs.Flow.Behaviour
import MiddleEnd.Proofs.Flow.SameRuns
import MiddleEnd.Proofs.Check.Run
import MiddleEnd.Proofs.Check.Parts
import MiddleEnd.Proofs.Flow.Positions
import MiddleEnd.Proofs.Scopes.Growth
import MiddleEnd.Proofs.Scopes.Denotes
import MiddleEnd.Proofs.Scopes.Paths
import MiddleEnd.Proofs.Check.Growth
import MiddleEnd.Proofs.Check.Steps
import MiddleEnd.Proofs.Check.Recheck
import MiddleEnd.Proofs.Check.Rules
import MiddleEnd.Proofs.Check.Settled
import MiddleEnd.Proofs.Check.Calls
import MiddleEnd.Proofs.Check.Expressions
import MiddleEnd.Proofs.Check.Statements
import MiddleEnd.Proofs.Check.Fields
import MiddleEnd.Proofs.Check.Tracked
import MiddleEnd.Proofs.Check.Announce
import MiddleEnd.Proofs.Check.Soundness
import MiddleEnd.Proofs.Check.Annotated
import MiddleEnd.Proofs.Check.Stale
import MiddleEnd.Proofs.Check.Overloads
import MiddleEnd.Proofs.Check.Changes
import MiddleEnd.Proofs.Tree.Placed
import MiddleEnd.Proofs.Tree.Spans
import MiddleEnd.Proofs.Check.Hoisted
import MiddleEnd.Proofs.Check.Blame
import MiddleEnd.Proofs.Check.Fits
import MiddleEnd.Proofs.Check.Judged
import MiddleEnd.Proofs.Check.Places
import MiddleEnd.Proofs.Check.Complete
import MiddleEnd.Proofs.Check.Members
import MiddleEnd.Proofs.Check.Kept
import MiddleEnd.Proofs.Check.Nested
import MiddleEnd.Proofs.Check.Targets
import MiddleEnd.Proofs.Check.Bodies
import MiddleEnd.Proofs.Check.FieldTypes
import MiddleEnd.Proofs.Check.Renewed
import MiddleEnd.Proofs.Link.Basic
import MiddleEnd.Proofs.Link.Mirrors
import MiddleEnd.Proofs.Link.Sees
import MiddleEnd.Proofs.Link.Steps
import MiddleEnd.Proofs.Link.LeftOnly
import MiddleEnd.Proofs.Link.Walk
import MiddleEnd.Proofs.Link.Declarations
import MiddleEnd.Proofs.Link.Announce
import MiddleEnd.Proofs.Link.Programs
import MiddleEnd.Proofs.Link.Optimized
import MiddleEnd.Proofs.Link.Shuffled
import MiddleEnd.Proofs.Link.Reordered
import MiddleEnd.Proofs.Link.Renewed
import MiddleEnd.Proofs.Link.Exchanged
import MiddleEnd.Proofs.Passes.Typed
import MiddleEnd.Proofs.Passes.Constants
import MiddleEnd.Proofs.Passes.Written
import MiddleEnd.Proofs.Flow.CutLists
import MiddleEnd.Proofs.Check.Returned
import MiddleEnd.Proofs.Check.LambdaReturns
import MiddleEnd.Proofs.Check.Unsettled
import MiddleEnd.Proofs.Check.Promised
import MiddleEnd.Proofs.Scopes.Reading
import MiddleEnd.Proofs.Check.Sealed
import MiddleEnd.Proofs.Tree.Collect
import MiddleEnd.Proofs.Check.Lengths
import MiddleEnd.Proofs.Link.Added
import MiddleEnd.Proofs.Span
import MiddleEnd.Proofs.Scopes.Chain
import MiddleEnd.Proofs.Check.Acyclic
