import CpsGraph.Program.Basic
import CpsGraph.Search

/-! # Traversing a program

The edges between nodes follow both handles and names: a continuation leads to its body and its
parameters, and an abstraction to the continuation that it names. Looking for the edges of a node
also checks it, so a program on which every search succeeds has no dangling name, no parameter out
of range and no branch with a wrong number of arguments.
-/

namespace CpsGraph

/-- The number of arguments of a branch: a condition and two targets. -/
def branchArity : Nat := 3

namespace Program

/-- The nodes that a node leads to, in order. -/
def successors (program : Program) (handle : Handle) : Except GraphError (List Handle) := do
  match ← program.table.get handle with
  | .continuation name _ body => return body :: (← program.resolve name).parameters
  | .branch arguments =>
    if arguments.length = branchArity then return arguments
    else throw (.malformedBranch arguments.length)
  | .abstraction target => return [(← program.resolve target).node]
  | .parameter target index =>
    let _ ← program.parameter target index
    return []
  | node => return node.children

/-- Search depth first from one node, skipping the handles already marked. -/
def visitFrom (program : Program) (start : Handle) (marked : List Handle) : Walk :=
  Search.walk .depthFirst program.size program.successors [start] marked

/-- Search from several nodes, one after the other, up to the first fault. Each search skips what
the earlier ones marked. -/
def visitEach (program : Program) : (starts marked : List Handle) → List Walk
  | [], _ => []
  | start :: starts, marked =>
    let walk := program.visitFrom start marked
    if walk.fault.isSome then [walk] else walk :: program.visitEach starts walk.marked

/-- The nodes reachable from some roots, in order of first visit. -/
def reachable (program : Program) (roots : List Handle) : Except GraphError (List Handle) :=
  (Search.walk .depthFirst program.size program.successors roots []).result

/-- The nodes reachable from the labels, in order of first visit. -/
def visitAll (program : Program) : Except GraphError (List Handle) :=
  program.reachable (program.labels.map (·.node))

/-- Check every node that is reachable from a label. -/
def validate (program : Program) : Except GraphError Unit := do
  let _ ← program.visitAll

end Program

/-- For each handle of a program, the reachable nodes that lead to it, in order of first visit. -/
structure Uses where
  users : Array (List Handle)
deriving Repr, DecidableEq

namespace Uses

/-- The nodes that lead to a handle. -/
def of (uses : Uses) (handle : Handle) : List Handle := (uses.users[handle]?).getD []

/-- Whether one node leads to another. -/
def contains (uses : Uses) (handle user : Handle) : Bool := (uses.of handle).contains user

/-- The number of handles that some node leads to. -/
def size (uses : Uses) : Nat := uses.users.countP (!·.isEmpty)

/-- Reverse the edges of some nodes. -/
def ofEdges (size : Nat) (edges : List (Handle × List Handle)) : Uses where
  users := Array.ofFn fun handle : Fin size =>
    edges.filterMap fun (user, used) => if handle.val ∈ used then some user else none

end Uses

/-- The users of every node. -/
def Program.uses (program : Program) : Except GraphError Uses := do
  let users ← program.visitAll
  let edges ← users.mapM fun user => do return (user, ← program.successors user)
  return Uses.ofEdges program.size edges

end CpsGraph
