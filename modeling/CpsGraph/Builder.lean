import CpsGraph.Event
import CpsGraph.Program.Basic

/-! # Building programs

Programs are built by interning expressions and bodies and by defining labels. A label can be
mentioned before it is defined, since names are only resolved later; so labels that mention each
other can be defined in any order.
-/

namespace CpsGraph

/-- Building a program step by step. -/
abbrev BuildM := StateT Program (Except GraphError)

namespace Build

/-- Intern a node. -/
def node (node : Node) : BuildM Handle := modifyGet fun program => program.intern node

/-- An integer constant. -/
def int (value : Int64) : BuildM Handle := node (.quote (.int value))

/-- A boolean constant. -/
def bool (value : Bool) : BuildM Handle := node (.quote (.bool value))

/-- An unknown value. -/
def bottom (ty : Ty) : BuildM Handle := node (.quote (.bottom ty))

/-- A parameter of a label. -/
def parameter (name : Name) (index : Nat) : BuildM Handle := node (.parameter name index)

/-- The closure of a label. -/
def reference (name : Name) : BuildM Handle := node (.abstraction name)

/-- An operator applied to operands. -/
def primitive (op : Operator) (operands : List Handle) : BuildM Handle :=
  node (.primitive op operands)

/-- A conversion. -/
def cast (source : Handle) (ty : Ty) : BuildM Handle := node (.cast source ty)

/-- A call. -/
def call (callee : Handle) (arguments : List Handle) : BuildM Handle :=
  node (.call callee arguments)

/-- A branch between two targets. -/
def branch (condition onTrue onFalse : Handle) : BuildM Handle :=
  node (.branch [condition, onTrue, onFalse])

/-- Define a label, and give the handle of its closure. -/
def define (name : Name) (signature : Signature) (body : Handle) (external : Bool := false) :
    BuildM Handle := do
  let program ← (← get).define name signature body external
  set program
  return (← program.resolve name).abstraction

/-- The program that some steps build from nothing. -/
def run {α : Type} (steps : BuildM α) : Except GraphError Program := do
  let (_, program) ← StateT.run steps {}
  return program

end Build

/-- What is reported when a program is complete. -/
def Program.builtEvent (program : Program) : Event :=
  .programBuilt program.labels.length program.size

end CpsGraph
