import CpsGraph.Program.Basic
import CpsGraph.Text.Quoted

/-! # Printed programs

Expressions are printed as trees, with the names of continuations in place of their bodies. A
program is printed with one line for each label.
-/

namespace CpsGraph

namespace Table

/-- The printed form of the node at a handle below `bound`. -/
def renderBelow (table : Table) : (bound : Nat) → Handle → String
  | 0, _ => ""
  | bound + 1, handle =>
    let list (handles : List Handle) : String :=
      Text.commaSeparated (handles.map (renderBelow table bound))
    match table.get? handle with
    | none => ""
    | some (.continuation name _ _) => name
    | some (.call callee arguments) =>
      renderBelow table bound callee ++ "(" ++ list arguments ++ ")"
    | some (.branch arguments) => "BRANCH(" ++ list arguments ++ ")"
    | some (.primitive op [operand]) =>
      "(" ++ op.symbol ++ renderBelow table bound operand ++ ")"
    | some (.primitive op [left, right]) =>
      "(" ++ renderBelow table bound left ++ " " ++ op.symbol ++ " " ++
        renderBelow table bound right ++ ")"
    | some (.primitive op operands) => op.name ++ "(" ++ list operands ++ ")"
    | some (.abstraction target) => target
    | some (.parameter target index) => s!"{target}.args[{index}]"
    | some (.quote literal) => literal.render
    | some (.cast source ty) =>
      "(" ++ renderBelow table bound source ++ " as " ++ ty.render ++ ")"

/-- The printed form of a node. -/
def renderNode (table : Table) (handle : Handle) : String :=
  table.renderBelow (handle + 1) handle

end Table

namespace Program

/-- One line for a label: its name, its signature and its body. -/
def renderLabel (program : Program) (label : Label) : String :=
  (if label.external then "extern " else "") ++ label.name ++ " : " ++ label.signature.render ++
    " = " ++ program.table.renderNode label.body ++ "\n"

/-- The printed form of a program. -/
def render (program : Program) : String :=
  String.join (program.labels.map program.renderLabel)

end Program

end CpsGraph
