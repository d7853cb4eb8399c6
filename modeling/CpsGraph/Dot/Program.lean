import CpsGraph.Program.Printer
import CpsGraph.Traversal

/-! # Programs as DOT graphs

A program is drawn from its external labels, or from all labels if none is external. Every node that
can be reached is declared once, followed by its arrows. The graph is built as a list of statements,
which are then written out.
-/

namespace CpsGraph.Dot

/-- What an arrow stands for. -/
inductive ArrowKind where
  | dataDependency
  | controlFlow
  | continuationBody
  | parameterOf
  | argumentOf
deriving Repr, DecidableEq

/-- The head with which an arrow is drawn. -/
def ArrowKind.head : ArrowKind → String
  | .dataDependency => "vee"
  | .controlFlow => "normal"
  | .continuationBody => "none"
  | .parameterOf => "none"
  | .argumentOf => "empty"

/-- An arrow between two nodes. -/
structure Arrow where
  source : Handle
  target : Handle
  kind : ArrowKind
  caption : Option String := none
deriving Repr, DecidableEq

/-- How a node is drawn. -/
structure Appearance where
  shape : String
  color : String
  style : String
deriving Repr, DecidableEq

/-- A statement of a drawn program. -/
inductive Statement where
  | node (handle : Handle) (caption : String) (appearance : Appearance)
  | arrow (link : Arrow)
deriving Repr, DecidableEq

/-- One line for a statement. -/
def Statement.render : Statement → String
  | .node handle caption appearance =>
    s!"    n{handle} [label=\"" ++ Text.escape caption ++ "\", shape=" ++ appearance.shape ++
      ", color=" ++ appearance.color ++ ", style=" ++ appearance.style ++ "];\n"
  | .arrow link =>
    s!"    n{link.source} -> n{link.target} [arrowhead=" ++ link.kind.head ++
      link.caption.elim "" (fun caption => ", label=\"" ++ caption ++ "\"") ++
      ", fontsize=8, fontcolor=grey];\n"

/-- The beginning of a graph. -/
def header (name : String) : String :=
  "digraph " ++ name ++ " \x7b\n    bgcolor=transparent;\n"

/-- The end of a graph. -/
def footer : String := "\x7d\n"

/-- The drawn label of a node. -/
def caption : Node → String
  | .continuation name signature _ => name ++ " : " ++ signature.render
  | .call .. => "Call()"
  | .branch .. => "BRANCH"
  | .primitive op _ => op.symbol
  | .abstraction target => "&" ++ target
  | .parameter _ index => s!"param{index}"
  | .quote literal => literal.render ++ " : " ++ literal.ty.render
  | .cast _ ty => "cast(" ++ ty.render ++ ")"

/-- Number arrows to or from the children of a node. -/
def numbered (word : String) (handles : List Handle) : List (Handle × String) :=
  handles.zipIdx.map fun (handle, index) => (handle, s!"{word}{index}")

end CpsGraph.Dot

namespace CpsGraph.Program

open Dot

/-- How a node of a program is drawn. The continuation of an external label stands out. -/
def dotAppearance (program : Program) : Node → Appearance
  | .continuation name _ _ =>
    if (program.find? name).any (·.external) then ⟨"rectangle", "pink", "filled"⟩
    else ⟨"rectangle", "black", "solid"⟩
  | .parameter .. => ⟨"ellipse", "lightgrey", "solid"⟩
  | .branch .. => ⟨"rectangle", "lightblue", "filled"⟩
  | .call .. => ⟨"rectangle", "orange", "filled"⟩
  | .abstraction .. => ⟨"ellipse", "orange", "solid"⟩
  | .cast .. | .primitive .. => ⟨"ellipse", "darkseagreen1", "filled"⟩
  | .quote .. => ⟨"ellipse", "black", "dotted"⟩

/-- The nodes drawn after a node: its children, the parameters of a continuation, and the
continuation to which an abstraction or a parameter belongs. -/
def dotEdges (program : Program) : Search.Edges := fun handle => do
  match ← program.table.get handle with
  | .continuation name _ body => return (← program.resolve name).parameters ++ [body]
  | .abstraction target => return [(← program.resolve target).node]
  | .parameter target index =>
    let _ ← program.parameter target index
    return [(← program.resolve target).node]
  | node => return node.children

/-- The arrows of a node. Arguments point to the call that takes them; all else points away. -/
def dotArrows (program : Program) (handle : Handle) : Node → List Arrow
  | .continuation _ _ body => [⟨handle, body, .continuationBody, none⟩]
  | .call callee arguments =>
    ⟨handle, callee, .controlFlow, none⟩ ::
      (numbered "arg" arguments).map fun (argument, caption) =>
        ⟨argument, handle, .argumentOf, some caption⟩
  | .branch arguments =>
    (numbered "arg" arguments).map fun (argument, caption) =>
      ⟨argument, handle, .argumentOf, some caption⟩
  | .primitive _ operands =>
    (numbered "op" operands).map fun (operand, caption) =>
      ⟨handle, operand, .dataDependency, some caption⟩
  | .abstraction target =>
    (program.find? target).toList.map fun label => ⟨handle, label.node, .dataDependency, none⟩
  | .parameter target _ =>
    (program.find? target).toList.map fun label => ⟨handle, label.node, .parameterOf, none⟩
  | .quote _ => []
  | .cast source _ => [⟨handle, source, .dataDependency, none⟩]

/-- The declaration of a node. -/
def dotDeclaration (program : Program) (handle : Handle) (node : Node) : Statement :=
  .node handle (caption node) (program.dotAppearance node)

/-- The statements for a node that was reached. -/
def dotStatements (program : Program) (handle : Handle) : List Statement :=
  match program.table.get? handle with
  | some node => program.dotDeclaration handle node :: (program.dotArrows handle node).map .arrow
  | none => []

/-- The statements for the node at which the drawing stops: it is declared before its name is
resolved. -/
def dotBroken (program : Program) (handle : Handle) : List Statement :=
  ((program.table.get? handle).map (program.dotDeclaration handle)).toList

/-- The nodes from which a program is drawn. -/
def dotRoots (program : Program) : List Handle :=
  let labels := if program.externals.isEmpty then program.labels else program.externals
  labels.map (·.node)

/-- The search for the nodes to be drawn. -/
def dotWalk (program : Program) : Walk :=
  Search.walk .depthFirst program.size program.dotEdges program.dotRoots []

/-- The statements of a drawn program, up to the first fault if there is one. -/
def dotGraph (program : Program) : List Statement :=
  let walk := program.dotWalk
  walk.order.flatMap program.dotStatements ++
    if walk.fault.isSome then walk.marked.head?.toList.flatMap program.dotBroken else []

/-- The text that is written before a fault, or the whole text. -/
def dotText (program : Program) : String :=
  header "Program" ++ String.join (program.dotGraph.map Statement.render) ++
    if program.dotWalk.fault.isSome then "" else footer

/-- A program as a DOT graph. -/
def toDot (program : Program) : Except DotError String :=
  match program.dotWalk.fault with
  | some fault => .error (.graph fault)
  | none => .ok program.dotText

/-- Write a program as a DOT graph into a sink that takes a limited number of bytes, and give the
number of bytes written. A sink that fills up before the program shows a fault hides the fault. -/
def toDotWithin (program : Program) (capacity : Nat) : Except DotError Nat :=
  let size := program.dotText.utf8ByteSize
  if capacity < size then .error .sinkFull
  else
    match program.dotWalk.fault with
    | some fault => .error (.graph fault)
    | none => .ok size

end CpsGraph.Program
