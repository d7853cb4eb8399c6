import CpsGraph.CallGraph
import CpsGraph.Dot.Program

/-! # Call graphs as DOT graphs

One line for each label and one for each edge. Edges that jump back to the head of a loop are
dashed, and edges carry the order of the callee.
-/

namespace CpsGraph.CallGraph

/-- The line of a label. -/
def dotNode (node : CallNode) : String :=
  let name := Text.escape node.name
  let signature := node.signature.render
  let look := if node.external then "color=pink, style=filled" else "color=black, style=solid"
  s!"    \"{name}\" [label=\"{name} : {signature}\", shape=rectangle, {look}];\n"

/-- The line of an edge. -/
def dotEdge (edge : CallEdge) : String :=
  let caller := Text.escape edge.caller
  let callee := Text.escape edge.callee
  let style := if edge.simple then "dashed" else "solid"
  s!"    \"{caller}\" -> \"{callee}\" [label=\"{edge.order}\", style={style}, " ++
    "fontsize=8, fontcolor=grey];\n"

/-- The edges, gathered by caller in the order of the labels. -/
def edgesByCaller (graph : CallGraph) : List CallEdge :=
  graph.nodes.flatMap fun node => graph.calls node.name

/-- A call graph as a DOT graph. -/
def toDot (graph : CallGraph) : String :=
  Dot.header "CallGraph" ++ String.join (graph.nodes.map dotNode) ++
    String.join (graph.edgesByCaller.map dotEdge) ++ Dot.footer

end CpsGraph.CallGraph
