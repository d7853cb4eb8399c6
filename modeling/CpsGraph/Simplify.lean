import CpsGraph.Event
import CpsGraph.Operator.Evaluate
import CpsGraph.Program.Basic
import CpsGraph.Search

/-! # Simplification

A program is simplified by importing it into an empty one, label by label, beginning with the
external labels. On the way operators and casts on known literals are folded, algebraic identities
are applied, and a branch on a known condition becomes a call of the target that is taken. Only the
labels that the imported bodies still mention are imported in turn, so the others are dropped.
-/

namespace CpsGraph

/-- What a simplification did. -/
structure SimplifyStats where
  imported : Nat
  folded : Nat
  collapsed : Nat
  dropped : Nat
  memoHits : Nat
deriving Repr, DecidableEq, Inhabited

/-- What is left of an operator with two operands. -/
inductive Reduction where
  | left
  | right
  | constant (literal : Literal)
deriving Repr, DecidableEq

/-- Apply an algebraic identity that needs only one operand to be known. The operands are given by
their literals, where these are known. -/
def Operator.identity? (op : Operator) (left right : Option Literal) : Option Reduction :=
  match op with
  | .mul =>
    if left = some (.int 0) ∨ right = some (.int 0) then some (.constant (.int 0))
    else if right = some (.int 1) then some .left
    else if left = some (.int 1) then some .right
    else none
  | .div | .mod => if right = some (.int 1) then some .left else none
  | .and =>
    if left = some (.bool false) ∨ right = some (.bool false) then some (.constant (.bool false))
    else none
  | .or =>
    if left = some (.bool true) ∨ right = some (.bool true) then some (.constant (.bool true))
    else none
  | _ => none

namespace Simplify

/-- A program under construction: `imported` gives the new handle of each imported node, `kept`
counts the imported labels, and `events` holds what was reported, newest first. -/
structure State where
  program : Program := {}
  imported : List (Handle × Handle) := []
  kept : Nat := 0
  folded : Nat := 0
  collapsed : Nat := 0
  memoHits : Nat := 0
  events : List Event := []

/-- Importing into a program under construction. What was done before a fault is kept. -/
abbrev ImportM := EStateM GraphError State

/-- Intern a node of the new program. -/
def intern (node : Node) : ImportM Handle :=
  modifyGet fun state =>
    let (handle, program) := state.program.intern node
    (handle, { state with program })

/-- Count a folded expression. -/
def countFold : ImportM Unit := modify fun state => { state with folded := state.folded + 1 }

/-- Report an event. -/
def report (event : Event) : ImportM Unit :=
  modify fun state => { state with events := event :: state.events }

/-- The literal at a handle of the new program, if it is known. -/
def known? (handle : Handle) : ImportM (Option Literal) := do
  return ((← get).program.table.get? handle).bind Node.known?

/-- Intern what an identity leaves of an operator. -/
def reduce (left right : Handle) : Reduction → ImportM Handle
  | .left => return left
  | .right => return right
  | .constant literal => intern (.quote literal)

/-- Fold an operator on literals that are all known. An operator that fails on them is kept. -/
def foldOperator? (op : Operator) (literals : List Literal) : ImportM (Option Handle) :=
  match op.evaluate literals with
  | .ok literal => do
    countFold
    return some (← intern (.quote literal))
  | .error reason => do
    report (.foldSkipped op reason)
    return none

/-- Apply an algebraic identity to exactly two operands. -/
def applyIdentity? (op : Operator) : List Handle → ImportM (Option Handle)
  | [left, right] => do
    match op.identity? (← known? left) (← known? right) with
    | some reduction =>
      countFold
      return some (← reduce left right reduction)
    | none => return none
  | _ => return none

/-- Import an operator whose operands are imported. -/
def importOperator (op : Operator) (operands : List Handle) : ImportM Handle := do
  let literals ← operands.mapM known?
  let folded ← match literals.mapM id with
    | some literals => foldOperator? op literals
    | none => pure none
  match folded with
  | some handle => return handle
  | none =>
    match ← applyIdentity? op operands with
    | some handle => return handle
    | none => intern (.primitive op operands)

/-- Import a node of the old program, given how to import its children. -/
def importNode (old : Program) (importChild : Handle → ImportM Handle) : Node → ImportM Handle
  | .call callee arguments => do
    let callee ← importChild callee
    let arguments ← arguments.mapM importChild
    intern (.call callee arguments)
  | .branch [condition, onTrue, onFalse] => do
    let condition ← importChild condition
    match (← known? condition).bind Literal.bool? with
    | some taken =>
      let callee ← importChild (if taken then onTrue else onFalse)
      modify fun state => { state with collapsed := state.collapsed + 1 }
      report (.branchCollapsed taken)
      intern (.call callee [])
    | none =>
      let onTrue ← importChild onTrue
      let onFalse ← importChild onFalse
      intern (.branch [condition, onTrue, onFalse])
  | .branch arguments => throw (.malformedBranch arguments.length)
  | .primitive op operands => do
    let operands ← operands.mapM importChild
    importOperator op operands
  | .cast source ty => do
    let source ← importChild source
    match (← known? source).bind fun literal => (literal.cast ty).toOption with
    | some literal =>
      countFold
      intern (.quote literal)
    | none => intern (.cast source ty)
  | .abstraction target => do
    let _ ← liftExcept (old.resolve target)
    intern (.abstraction target)
  | .parameter target index => do
    let _ ← liftExcept (old.parameter target index)
    intern (.parameter target index)
  | .quote literal => intern (.quote literal)
  | .continuation .. => throw (.notAnExpression .continuation)

/-- Import the node at a handle below `bound`, unless it is imported already. -/
def importBelow (old : Program) : (bound : Nat) → Handle → ImportM Handle
  | 0, handle => throw (.unknownHandle handle)
  | bound + 1, handle => do
    match (← get).imported.lookup handle with
    | some new =>
      modify fun state => { state with memoHits := state.memoHits + 1 }
      return new
    | none =>
      let node ← liftExcept (old.table.get handle)
      let new ← importNode old (importBelow old bound) node
      modify fun state => { state with imported := (handle, new) :: state.imported }
      return new

/-- Import a node of the old program. -/
def importHandle (old : Program) (handle : Handle) : ImportM Handle :=
  importBelow old (handle + 1) handle

/-- The name that a node mentions. -/
def mentioned? (table : Table) (handle : Handle) : Option Name :=
  match table.get? handle with
  | some (.abstraction target) => some target
  | some (.parameter target _) => some target
  | _ => none

/-- The names that an imported body mentions, the last child of each node first. -/
def mentions (table : Table) (body : Handle) : Except GraphError (List Name) := do
  let edges : Search.Edges := fun handle => do return (← table.get handle).children.reverse
  let found ← (Search.walk .depthFirst table.size edges [body] []).result
  return found.filterMap (mentioned? table)

/-- Import a label and give the names that its body still mentions. -/
def importLabel (old : Program) (label : Label) : ImportM (List Name) := do
  let body ← importHandle old label.body
  let state ← get
  let program ← liftExcept (state.program.define label.name label.signature body label.external)
  set { state with program, kept := state.kept + 1 }
  liftExcept (mentions program.table body)

/-- Import labels breadth first for at most `rounds` rounds: those in the queue, and then those that
they mention. Each round imports another label, so one round more than there are labels is
enough. -/
def importLabels (old : Program) : (rounds : Nat) → (queue done : List Name) → ImportM Unit
  | 0, _, _ => return
  | rounds + 1, queue, done =>
    match queue.dropWhile (· ∈ done) with
    | [] => return
    | name :: rest => do
      let label ← liftExcept (old.resolve name)
      let mentioned ← importLabel old label
      importLabels old rounds (rest ++ mentioned) (name :: done)

/-- Import the external labels and all that they need. -/
def importProgram (old : Program) : ImportM Unit :=
  importLabels old (old.labels.length + 1) (old.externals.map (·.name)) []

end Simplify

namespace Program

/-- Simplify a program, reporting what was done. -/
def simplifyReport (program : Program) : Report GraphError (Program × SimplifyStats) :=
  match (Simplify.importProgram program).run {} with
  | .error fault state => ⟨state.events.reverse, .error fault⟩
  | .ok () state =>
    let stats : SimplifyStats :=
      { imported := state.kept
        folded := state.folded
        collapsed := state.collapsed
        dropped := program.labels.length - state.program.labels.length
        memoHits := state.memoHits }
    let summary := .simplified stats.imported stats.dropped stats.folded stats.collapsed
    ⟨(summary :: state.events).reverse, .ok (state.program, stats)⟩

/-- Simplify a program, with statistics. -/
def simplifyStats (program : Program) : Except GraphError (Program × SimplifyStats) :=
  program.simplifyReport.outcome

/-- Simplify a program. -/
def simplify (program : Program) : Except GraphError Program :=
  program.simplifyStats.map (·.1)

end Program

end CpsGraph
