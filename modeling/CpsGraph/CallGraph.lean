import CpsGraph.Scope

/-! # Call graphs

Which labels a label can hand control to: one edge for each label whose closure occurs in its body.
An edge is simple if the caller lies in the scope of the callee, that is, if it jumps back to the
head of a loop and does not call a function of its own.
-/

namespace CpsGraph

/-- A label as a node of a call graph. -/
structure CallNode where
  name : Name
  signature : Signature
  order : Nat
  external : Bool
deriving Repr, DecidableEq

/-- An edge of a call graph, with the order of the signature of the callee. -/
structure CallEdge where
  caller : Name
  callee : Name
  order : Nat
  simple : Bool
deriving Repr, DecidableEq

/-- The labels in order of definition, and the edges in order of their callers and then of their
first occurrence. -/
structure CallGraph where
  nodes : List CallNode
  edges : List CallEdge
deriving Repr, DecidableEq

namespace CallGraph

/-- The node of a label. -/
def node? (graph : CallGraph) (name : Name) : Option CallNode :=
  graph.nodes.find? (·.name == name)

/-- The place of a label among the nodes. -/
def indexOf (graph : CallGraph) (name : Name) : Nat := graph.nodes.findIdx (·.name == name)

/-- The edges that satisfy a condition, newest first, each with its number in order of insertion. -/
def incident (graph : CallGraph) (condition : CallEdge → Bool) : List (CallEdge × Nat) :=
  (graph.edges.zipIdx.filter (condition ·.1)).reverse

/-- Numbered edges in the order of their numbers. -/
def byNumber (numbered : List (CallEdge × Nat)) : List CallEdge :=
  (numbered.mergeSort fun first second => first.2 ≤ second.2).map (·.1)

/-- The edge between two labels: the newest, if there were several. -/
def edge? (graph : CallGraph) (caller callee : Name) : Option CallEdge :=
  ((graph.incident (·.caller == caller)).find? (·.1.callee == callee)).map (·.1)

/-- The edges that leave a label, in order of insertion. -/
def calls (graph : CallGraph) (name : Name) : List CallEdge :=
  byNumber (graph.incident (·.caller == name))

/-- The edges that lead to a label, in order of insertion. -/
def callers (graph : CallGraph) (name : Name) : List CallEdge :=
  byNumber (graph.incident (·.callee == name))

/-- The edges that jump back to the head of a loop. -/
def loops (graph : CallGraph) : List CallEdge := graph.edges.filter (·.simple)

end CallGraph

namespace Program

/-- The edges inside one body: it ends at names and does not enter a continuation. -/
def bodyEdges (program : Program) : Search.Edges := fun handle => do
  match ← program.table.get handle with
  | .abstraction target =>
    let _ ← program.resolve target
    return []
  | .continuation .. => return []
  | node => return node.children

/-- The target of an abstraction node. -/
def abstractionTarget? (program : Program) (handle : Handle) : Option Name :=
  match program.table.get? handle with
  | some (.abstraction target) => some target
  | _ => none

/-- The labels whose closures occur in a body, in order of first occurrence. -/
def callees (program : Program) (body : Handle) : Except GraphError (List Name) := do
  let found ← (Search.walk .depthFirst program.size program.bodyEdges [body] []).result
  return (found.filterMap program.abstractionTarget?).eraseDups

/-- The edge from a label to one of its callees. -/
def callEdge (program : Program) (caller : Label) (target : Name) :
    EStateM GraphError ScopeCache CallEdge := do
  let callee ← liftExcept (program.resolve target)
  let scope ← ScopeCache.scope target
  return { caller := caller.name
           callee := callee.name
           order := callee.signature.order
           simple := scope.continuations.contains caller.name }

/-- The edges that leave a label. -/
def callEdges (program : Program) (caller : Label) :
    EStateM GraphError ScopeCache (List CallEdge) := do
  let targets ← liftExcept (program.callees caller.body)
  targets.mapM (program.callEdge caller)

/-- The nodes of the call graph. -/
def callNodes (program : Program) : List CallNode :=
  program.labels.map fun label =>
    { name := label.name
      signature := label.signature
      order := label.signature.order
      external := label.external }

/-- Build the call graph, reporting the scopes found on the way. -/
def callGraphReport (program : Program) : Report GraphError CallGraph :=
  match ScopeCache.ofProgram program with
  | .error fault => ⟨[], .error fault⟩
  | .ok cache =>
    match (program.labels.mapM program.callEdges).run cache with
    | .error fault cache => ⟨cache.events, .error fault⟩
    | .ok edges cache =>
      let graph : CallGraph := { nodes := program.callNodes, edges := edges.flatten }
      ⟨cache.events ++ [.callGraphBuilt graph.nodes.length graph.edges.length], .ok graph⟩

/-- The call graph of a program. -/
def callGraph (program : Program) : Except GraphError CallGraph := program.callGraphReport.outcome

end Program

end CpsGraph
