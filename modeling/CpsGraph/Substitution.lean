import CpsGraph.Program.Basic

/-! # Substitution

A substitution replaces nodes by other nodes of the same table. All replacements happen at once,
from the top down: a replacement is not looked into again, and neither is a continuation. What
contains a replaced node is rebuilt by interning, so what does not keeps its handle.
-/

namespace CpsGraph

/-- Replacements for nodes. The first pair for a node counts. -/
abbrev Substitution := List (Handle × Handle)

namespace Substitution

/-- The substitution given by pairs of which the last one for a node counts. -/
def ofPairs (pairs : List (Handle × Handle)) : Substitution := pairs.reverse

/-- Whether a pair counts, that is, whether no other replacement for its node comes before it. -/
def counts (substitution : Substitution) (pair : Handle × Handle) : Bool :=
  substitution.lookup pair.1 == some pair.2

/-- A program that grows while nodes are rebuilt, with the nodes that were already rebuilt. -/
structure State where
  program : Program
  rebuilt : List (Handle × Handle) := []

/-- Rebuilding nodes in a program that grows. -/
abbrev RebuildM := StateT State (Except GraphError)

/-- Intern a node of the growing program. -/
def intern (node : Node) : RebuildM Handle :=
  modifyGet fun state =>
    let (handle, program) := state.program.intern node
    (handle, { state with program })

/-- Rebuild a node, given its handle and how to treat its children. -/
def rebuildNode (treat : Handle → RebuildM Handle) (handle : Handle) : Node → RebuildM Handle
  | .call callee arguments => do
    let callee ← treat callee
    let arguments ← arguments.mapM treat
    intern (.call callee arguments)
  | .branch arguments => do
    let arguments ← arguments.mapM treat
    intern (.branch arguments)
  | .primitive op operands => do
    let operands ← operands.mapM treat
    intern (.primitive op operands)
  | .cast source ty => do
    let source ← treat source
    intern (.cast source ty)
  | _ => return handle

/-- Apply a substitution to the node at a handle below `bound`. -/
def applyBelow (substitution : Substitution) : (bound : Nat) → Handle → RebuildM Handle
  | 0, handle => throw (.unknownHandle handle)
  | bound + 1, handle => do
    match substitution.lookup handle with
    | some replacement => return replacement
    | none =>
      let state ← get
      match state.rebuilt.lookup handle with
      | some result => return result
      | none =>
        let node ← state.program.table.get handle
        let result ← rebuildNode (applyBelow substitution bound) handle node
        modify fun state => { state with rebuilt := (handle, result) :: state.rebuilt }
        return result

/-- Apply a substitution to a node. -/
def apply (substitution : Substitution) (handle : Handle) : RebuildM Handle :=
  substitution.applyBelow (handle + 1) handle

end Substitution

/-- Apply a substitution to some nodes of a program, one after the other. -/
def Program.substitute (program : Program) (substitution : Substitution) (handles : List Handle) :
    Except GraphError (List Handle × Program) := do
  let (results, state) ← (handles.mapM substitution.apply).run { program }
  return (results, state.program)

end CpsGraph
