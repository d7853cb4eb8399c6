import CpsGraph.Builder
import CpsGraph.CallGraph
import CpsGraph.Client.Builder
import CpsGraph.Client.Program
import CpsGraph.Dot.CallGraph
import CpsGraph.Dot.Program
import CpsGraph.Program.Equality
import CpsGraph.Program.Printer
import CpsGraph.Proofs.AcceptedPrograms
import CpsGraph.Proofs.CallSites
import CpsGraph.Proofs.CheckedRequests
import CpsGraph.Proofs.ClientSessions
import CpsGraph.Proofs.ComputedFactorials
import CpsGraph.Proofs.ConservativeExtension
import CpsGraph.Proofs.DirectTyping
import CpsGraph.Proofs.DrawnCallGraphs
import CpsGraph.Proofs.DrawnPrograms
import CpsGraph.Proofs.EditedPrograms
import CpsGraph.Proofs.EqualResults
import CpsGraph.Proofs.ExactCallGraphs
import CpsGraph.Proofs.FreshNames
import CpsGraph.Proofs.Idempotence
import CpsGraph.Proofs.KnownHandles
import CpsGraph.Proofs.NestedScopes
import CpsGraph.Proofs.ReachableLabels
import CpsGraph.Proofs.ReadDrawings
import CpsGraph.Proofs.RecursiveTraversal
import CpsGraph.Proofs.RedirectedRuns
import CpsGraph.Proofs.ReducedOperators
import CpsGraph.Proofs.ScopeContainment
import CpsGraph.Proofs.ScopeFixedPoints
import CpsGraph.Proofs.SharedEvaluation
import CpsGraph.Proofs.SimplifiedRuns
import CpsGraph.Proofs.SimplifiedTypes
import CpsGraph.Proofs.SpecializedRuns
import CpsGraph.Proofs.SpecializedTypes
import CpsGraph.Proofs.StepLimits
import CpsGraph.Proofs.SubstitutedTrees
import CpsGraph.Proofs.TypeSoundness
import CpsGraph.Proofs.UnfoldedTrees
import CpsGraph.Proofs.UnmarkedWalks
import CpsGraph.Proofs.WordArithmetic
import CpsGraph.Proofs.WrittenTypes
import CpsGraph.Run
import CpsGraph.Samples
import CpsGraph.Simplify
import CpsGraph.Specialize
import CpsGraph.Text.Decimal
import CpsGraph.Typing
