import CpsGraph.Builder
import CpsGraph.Dot.CallGraph
import CpsGraph.Proofs.ExactCallGraphs
import CpsGraph.Proofs.ReadDrawings

/-! # Drawn call graphs

A call graph is drawn by the names of its labels, which may hold any characters. Protected by
backslashes they can be read back, so different labels are drawn as different nodes. The text of the
call graph of a program is read as one node for each label and one edge for each edge; the edges are
written caller by caller, which for such a graph is the order they already have.
-/

namespace CpsGraph

namespace Text

theorem plain_signature (signature : Signature) :
    signature.render.toList.any needsProtection = false := by
  rw [Signature.render, Ty.render, String.toList_ofList, List.any_flatMap, List.any_eq_false]
  intro token _
  cases token <;> decide

end Text

open Dot

/-- What the line of a label says. -/
def CallNode.entry (node : CallNode) : Entry :=
  .node node.name [("label", node.name ++ " : " ++ node.signature.render), ("shape", "rectangle"),
    ("color", if node.external then "pink" else "black"),
    ("style", if node.external then "filled" else "solid")]

/-- What the line of an edge says. -/
def CallEdge.link (edge : CallEdge) : Link :=
  ⟨edge.caller, edge.callee, [("label", toString edge.order),
    ("style", if edge.simple then "dashed" else "solid"), ("fontsize", "8"), ("fontcolor", "grey")]⟩

/-- The entry of an edge. -/
def CallEdge.entry (edge : CallEdge) : Entry := .edge edge.link

namespace CallGraph

/-- The line of a label is read as its entry. -/
theorem scans_dotNode (node : CallNode) :
    Scans .between .between (dotNode node).toList node.entry.line := by
  have written : dotNode node = "    \"" ++ Text.escape node.name ++ "\" [label=\"" ++
      Text.escape node.name ++ " : " ++ node.signature.render ++ "\", shape=rectangle, " ++
      (if node.external then "color=pink, style=filled" else "color=black, style=solid") ++ "];\n" := rfl
  have caption : Text.escape (node.name ++ " : " ++ node.signature.render) =
      Text.escape node.name ++ " : " ++ node.signature.render := by
    rw [Text.escape_append, Text.escape_append, Text.escape_of_plain (Text.plain_signature _)]
    rfl
  have look : Scans .between .between (", shape=rectangle, " ++
      (if node.external then "color=pink, style=filled" else "color=black, style=solid") ++ "];\n").toList
      (.mark ',' :: (attributeTokens [("shape", "rectangle"),
        ("color", if node.external then "pink" else "black"),
        ("style", if node.external then "filled" else "solid")] ++ [.mark ';'])) := by
    cases node.external <;> exact ⟨fun _ => rfl⟩
  have whole := Scans.indent.append (.quoted node.name (Scans.label.append
    (.quoted (node.name ++ " : " ++ node.signature.render) look)))
  rw [caption] at whole
  simpa [written, CallNode.entry, Entry.line, Entry.tokens, attributeTokens] using whole

/-- The line of an edge is read as its entry. -/
theorem scans_dotEdge (edge : CallEdge) :
    Scans .between .between (dotEdge edge).toList edge.entry.line := by
  have written : dotEdge edge = "    \"" ++ Text.escape edge.caller ++ "\" -> \"" ++
      Text.escape edge.callee ++ "\" [label=\"" ++ toString edge.order ++ "\", style=" ++
      (if edge.simple then "dashed" else "solid") ++ ", " ++ "fontsize=8, fontcolor=grey];\n" := rfl
  have order : Text.escape (toString edge.order) = toString edge.order :=
    Text.escape_of_plain (Text.plain_number _)
  have style : Scans .between .between (", style=" ++ (if edge.simple then "dashed" else "solid") ++
      ", fontsize=8, fontcolor=grey];\n").toList (.mark ',' :: (attributeTokens
        [("style", if edge.simple then "dashed" else "solid"), ("fontsize", "8"),
          ("fontcolor", "grey")] ++ [.mark ';'])) := by
    cases edge.simple <;> exact ⟨fun _ => rfl⟩
  have whole := Scans.indent.append (.quoted edge.caller (Scans.arrow.append (.quoted edge.callee
    (Scans.label.append (.quoted (toString edge.order) style)))))
  rw [order] at whole
  simpa [written, CallEdge.entry, CallEdge.link, Entry.line, Entry.tokens, attributeTokens] using whole

/-- The text of a call graph is read as one entry for each label and one for each edge. -/
theorem read?_toDot (graph : CallGraph) :
    Drawing.read? graph.toDot = some ⟨"CallGraph", .setting "bgcolor" "transparent" ::
      (graph.nodes.map CallNode.entry ++ graph.edgesByCaller.map CallEdge.entry)⟩ := by
  have lines : graph.toDot = header "CallGraph" ++ (String.join (graph.nodes.map dotNode) ++
      String.join (graph.edgesByCaller.map dotEdge)) ++ footer := by
    simp only [toDot, String.append_assoc]
  rw [lines]
  refine Drawing.read?_written (by decide) ?_
  rw [String.toList_append, List.flatMap_append]
  exact (Scans.join fun node _ => scans_dotNode node).append (.join fun edge _ => scans_dotEdge edge)

variable (nodes : List CallNode) (edges : List CallEdge)

theorem declared_entries :
    (nodes.map CallNode.entry ++ edges.map CallEdge.entry).filterMap Entry.declared? =
      nodes.map (·.name) := by
  rw [List.filterMap_append, List.filterMap_map, List.filterMap_map]
  change nodes.filterMap (some ∘ CallNode.name) ++ edges.filterMap (fun _ => none) = _
  simp

theorem links_entries :
    (nodes.map CallNode.entry ++ edges.map CallEdge.entry).filterMap Entry.link? =
      edges.map CallEdge.link := by
  rw [List.filterMap_append, List.filterMap_map, List.filterMap_map]
  change nodes.filterMap (fun _ => none) ++ edges.filterMap (some ∘ CallEdge.link) = _
  simp

end CallGraph

namespace Program

variable {program : Program} {graph : CallGraph}

/-- The edges of a call graph are already gathered by caller, in the order of the labels. -/
theorem edgesByCaller_of_callGraph (wellFormed : program.WellFormed)
    (built : program.callGraph = .ok graph) : graph.edgesByCaller = graph.edges := by
  obtain ⟨leaving, rfl, each⟩ := exists_edges_of_callGraph built
  have fromCaller : ∀ caller ∈ program.labels, ∀ edge ∈ leaving caller, edge.caller = caller.name := by
    intro caller member edge isEdge
    have made := (wellFormed.directCallEdges_eq_ok (each caller member)).2 edge isEdge
    obtain ⟨_, _, -, -, named, -⟩ := directCallEdge_eq_ok made
    exact named
  rw [CallGraph.edgesByCaller, callNodes, List.flatMap_map]
  refine List.flatMap_congr fun caller member => ?_
  rw [CallGraph.calls_eq_filter]
  exact filter_flatMap_of_key wellFormed.names fromCaller member

end Program

open Build in
/-- Labels with delicate names that call each other in a circle. -/
def Samples.delicate : Program :=
  let steps : BuildM Unit := do
    let _ ← define "a\\b" [] (← call (← reference "say \"hi\"") []) true
    let _ ← define "say \"hi\"" [] (← call (← reference "\\\"") [])
    let _ ← define "\\\"" [] (← call (← reference "a\\b") [])
  (Build.run steps).toOption.getD {}

namespace Text

/-- Protecting a text loses nothing and leaves no quote bare: reading it from left to right, with each
backslash taking the next character, gives back the text. A text without quotes and backslashes is
kept as it is, and different texts stay different. So the text of a call graph is read as one node for
each label, under its own name, and one edge for each edge. -/
theorem escape_lossless :
    (∀ text, unescape? (escape text) = some text) ∧
    (∀ text, escape text =
      if text.toList.any needsProtection then String.ofList (escapeChars text.toList) else text) ∧
    Function.Injective escape ∧
    ∀ (program : Program) (graph : CallGraph), program.WellFormed → program.callGraph = .ok graph →
      ∃ drawing, Drawing.read? graph.toDot = some drawing ∧
        drawing.entries = .setting "bgcolor" "transparent" ::
          (graph.nodes.map CallNode.entry ++ graph.edges.map CallEdge.entry) ∧
        drawing.declared = program.names ∧ drawing.declared.Nodup ∧
        drawing.links = graph.edges.map CallEdge.link := by
  refine ⟨unescape?_escape, fun text => ?_, escape_injective, fun program graph wellFormed built => ?_⟩
  · split_ifs with delicate
    · rfl
    · exact escape_of_plain (Bool.eq_false_iff.mpr delicate)
  · have read := graph.read?_toDot
    rw [Program.edgesByCaller_of_callGraph wellFormed built] at read
    obtain ⟨leaving, rfl, -⟩ := Program.exists_edges_of_callGraph built
    have named : program.callNodes.map (·.name) = program.names := by
      rw [Program.callNodes, List.map_map]
      rfl
    have declared := (CallGraph.declared_entries program.callNodes (program.labels.flatMap leaving)).trans
      named
    have distinct := wellFormed.names
    rw [← declared] at distinct
    exact ⟨_, read, rfl, declared, distinct, CallGraph.links_entries _ _⟩

/-- Names with quotes and backslashes are read from the text of the call graph as they are. -/
theorem escape_lossless_delicate :
    let program := Samples.delicate
    ∃ graph drawing, program.WellFormed ∧ program.callGraph = .ok graph ∧
      Drawing.read? graph.toDot = some drawing ∧ drawing.declared = ["a\\b", "say \"hi\"", "\\\""] ∧
      drawing.declared.Nodup ∧ drawing.links.map (·.target) = ["say \"hi\"", "\\\"", "a\\b"] := by
  intro program
  obtain ⟨wellFormed, names⟩ : program.WellFormed ∧ program.names = ["a\\b", "say \"hi\"", "\\\""] := by
    decide +kernel
  obtain ⟨graph, built, callees⟩ : ∃ graph, program.callGraph = .ok graph ∧
      graph.edges.map (·.callee) = ["say \"hi\"", "\\\"", "a\\b"] :=
    ⟨program.callGraph.toOption.getD ⟨[], []⟩, by decide +kernel⟩
  obtain ⟨drawing, read, -, declared, distinct, links⟩ :=
    escape_lossless.2.2.2 program graph wellFormed built
  refine ⟨graph, drawing, wellFormed, built, read, declared.trans names, distinct, ?_⟩
  rw [links, List.map_map]
  exact callees

end Text

end CpsGraph
