import CpsGraph.Event
import CpsGraph.Traversal

/-! # Scopes

The scope of a label holds the nodes that depend on its parameters: starting from the parameters, it
grows along uses. A continuation that enters the scope brings its own parameters along, and the
label itself ends the growth and stays outside. Data can flow into the scope only through the
parameters of the label, so the scope is what has to be cloned to specialize the label.
-/

namespace CpsGraph

/-- The nodes and the continuations that depend on the parameters of a label, in the order in which
they were found. -/
structure Scope where
  entry : Name
  nodes : List Handle
  continuations : List Name
deriving Repr, DecidableEq

namespace Program

/-- How the scope of a label grows: from a node to its users, and from a continuation also to its
parameters. -/
def scopeEdges (program : Program) (uses : Uses) (entry : Label) : Search.Edges := fun handle => do
  if handle = entry.node then return []
  match ← program.table.get handle with
  | .continuation name _ _ => return uses.of handle ++ (← program.resolve name).parameters
  | _ => return uses.of handle

/-- The name of a continuation node. -/
def continuationName? (program : Program) (handle : Handle) : Option Name :=
  match program.table.get? handle with
  | some (.continuation name _ _) => some name
  | _ => none

/-- The scope of a label, given the users of every node. -/
def scopeOf (program : Program) (uses : Uses) (entry : Label) : Except GraphError Scope := do
  let walk := Search.walk .breadthFirst program.size (program.scopeEdges uses entry)
    entry.parameters []
  let found ← walk.result
  let nodes := found.filter (· ≠ entry.node)
  return { entry := entry.name
           nodes
           continuations := (nodes.filterMap program.continuationName?).eraseDups }

/-- The scope of the label with a name. The program is traversed before the name is resolved. -/
def scope (program : Program) (entry : Name) : Except GraphError Scope := do
  let uses ← program.uses
  let label ← program.resolve entry
  program.scopeOf uses label

/-- The nodes of the scope of a label that a search from the labels outside can reach, with the
label and its parameters marked beforehand. -/
def scopeEscapes (program : Program) (entry : Name) : Except GraphError (List Handle) := do
  let scope ← program.scope entry
  let label ← program.resolve entry
  let outside := program.labels.filter fun other =>
    other.node ≠ label.node ∧ other.node ∉ scope.nodes
  let walk := Search.walk .depthFirst program.size program.successors (outside.map (·.node))
    (label.node :: label.parameters)
  return (← walk.result).filter (· ∈ scope.nodes)

end Program

/-- The scopes of a program found so far, newest first. The users of every node are found once. -/
structure ScopeCache where
  program : Program
  uses : Uses
  scopes : List Scope := []

namespace ScopeCache

/-- Prepare to look for scopes in a program. -/
def ofProgram (program : Program) : Except GraphError ScopeCache := do
  return { program, uses := ← program.uses }

/-- The scope of the label with a name, which is found at most once. -/
def scope (entry : Name) : EStateM GraphError ScopeCache Scope := fun cache =>
  match cache.program.resolve entry with
  | .error fault => .error fault cache
  | .ok label =>
    match cache.scopes.find? (·.entry == label.name) with
    | some scope => .ok scope cache
    | none =>
      match cache.program.scopeOf cache.uses label with
      | .error fault => .error fault cache
      | .ok scope => .ok scope { cache with scopes := scope :: cache.scopes }

/-- The scopes of several labels, one after the other. A label that has none does not end the
search. -/
def scopeEach : List Name → ScopeCache → List (Except GraphError Scope) × ScopeCache
  | [], cache => ([], cache)
  | entry :: entries, cache =>
    let (result, cache) : Except GraphError Scope × ScopeCache :=
      match (scope entry).run cache with
      | .ok found cache => (.ok found, cache)
      | .error fault cache => (.error fault, cache)
    let (results, cache) := scopeEach entries cache
    (result :: results, cache)

/-- One event for each scope that was found, in order. -/
def events (cache : ScopeCache) : List Event :=
  cache.scopes.reverse.map fun scope => .scopeFound scope.entry scope.continuations

end ScopeCache

end CpsGraph
