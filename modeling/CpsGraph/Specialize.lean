import CpsGraph.Scope
import CpsGraph.Substitution

/-! # Specialization

To specialize a label, its scope is cloned under fresh names while some of its parameters are
replaced, which gives a new label with a signature of its own. The old label stays. Redirecting the
calls of one label to another, with some of the arguments, then makes use of the new label.
-/

namespace CpsGraph

/-- A label of a scope and the name of its clone. -/
structure Clone where
  source : Label
  fresh : Name
deriving Repr, DecidableEq

namespace Clone

/-- The handles of a label that its clone renames: its closure and its parameters. -/
def renamed (clone : Clone) : List Handle :=
  clone.source.abstraction :: clone.source.parameters

/-- The nodes that stand for the renamed handles in the clone. -/
def nodes (clone : Clone) : List Node :=
  .abstraction clone.fresh ::
    (List.range clone.source.parameters.length).map (.parameter clone.fresh)

end Clone

namespace Program

/-- Choose fresh names for the labels of a scope, one after the other. -/
def planClones (program : Program) :
    (reserved : List Name) → List Name → Except GraphError (List Clone)
  | _, [] => return []
  | reserved, name :: names => do
    let source ← program.resolve name
    let fresh := program.freshName name reserved
    let clones ← program.planClones (fresh :: reserved) names
    return ⟨source, fresh⟩ :: clones

end Program

namespace Substitution

/-- Define a label whose body is another one under the substitution. -/
def defineFrom (substitution : Substitution) (name : Name) (signature : Signature)
    (body : Handle) : RebuildM Unit := do
  let body ← substitution.apply body
  let state ← get
  let program ← state.program.define name signature body false
  set { state with program }

/-- Give a label its body under the substitution, and say whether that changes it. -/
def redefineFrom (substitution : Substitution) (label : Label) : RebuildM Bool := do
  let body ← substitution.apply label.body
  if body = label.body then return false
  let state ← get
  let program ← state.program.redefine label.name body
  set { state with program }
  return true

end Substitution

namespace Program

/-- Specialize a label: define `newName` with the body of `entry` under a substitution, in which the
labels of the scope of `entry` are also replaced by their clones. The given replacements come before
those of the clones. -/
def specializeReport (program : Program) (entry newName : Name) (signature : Signature)
    (substitution : Substitution) : Report GraphError Program :=
  .ofSuccess do
    let scope ← program.scope entry
    let label ← program.resolve entry
    if program.contains newName then throw (.duplicateLabel newName)
    let clones ← program.planClones [newName] scope.continuations
    let (handles, table) := program.table.internAll (clones.flatMap Clone.nodes)
    let substitution : Substitution := substitution ++ (clones.flatMap Clone.renamed).zip handles
    let define : Substitution.RebuildM Unit := do
      substitution.defineFrom newName signature label.body
      clones.forM fun clone =>
        substitution.defineFrom clone.fresh clone.source.signature clone.source.body
    let ((), state) ← define.run { program := { program with table } }
    return (state.program, .specialized label.name newName clones.length)

/-- Specialize a label. -/
def specialize (program : Program) (entry newName : Name) (signature : Signature)
    (substitution : Substitution) : Except GraphError Program :=
  (program.specializeReport entry newName signature substitution).outcome

/-- The arguments of a call node with the given callee. -/
def callArguments? (program : Program) (callee handle : Handle) : Option (List Handle) :=
  match program.table.get? handle with
  | some (.call other arguments) => if other = callee then some arguments else none
  | _ => none

/-- Choose arguments of a call by position. -/
def selectArguments (mapping : List Nat) (arguments : List Handle) :
    Except GraphError (List Handle) :=
  mapping.mapM fun index =>
    match arguments[index]? with
    | some argument => .ok argument
    | none => .error (.argumentMapping index arguments.length)

/-- Redirect every reachable call of `old` to `new`, with the arguments chosen by position. -/
def redirectCallsReport (program : Program) (old new : Name) (mapping : List Nat) :
    Report GraphError Program :=
  .ofSuccess do
    let old ← program.resolve old
    let new ← program.resolve new
    if let some index := mapping.find? (old.arity ≤ ·) then
      throw (.argumentMapping index old.arity)
    let reachable ← program.visitAll
    let sites := reachable.filterMap fun handle =>
      (program.callArguments? old.abstraction handle).map (handle, ·)
    let calls ← sites.mapM fun (_, arguments) => do
      return .call new.abstraction (← selectArguments mapping arguments)
    let (handles, table) := program.table.internAll calls
    let substitution : Substitution := (sites.map (·.1)).zip handles
    let (changed, state) ←
      (program.labels.mapM substitution.redefineFrom).run { program := { program with table } }
    return (state.program, .callsRedirected old.name new.name sites.length (changed.countP id))

/-- Redirect the calls of one label to another. -/
def redirectCalls (program : Program) (old new : Name) (mapping : List Nat) :
    Except GraphError Program :=
  (program.redirectCallsReport old new mapping).outcome

end Program

end CpsGraph
