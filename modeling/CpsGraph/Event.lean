import CpsGraph.Error
import CpsGraph.Text.Quoted

/-! # Events

What operations report on their way, besides their result. Events are plain values, so an operation
that reports stays a function of its input.
-/

namespace CpsGraph

/-- How much detail an event carries. -/
inductive Level where
  | debug
  | trace
deriving Repr, DecidableEq

/-- The printed form of a level. -/
def Level.render : Level → String
  | .debug => "DEBUG"
  | .trace => "TRACE"

/-- Something that an operation reports. -/
inductive Event where
  | programBuilt (labels nodes : Nat)
  | scopeFound (entry : Name) (continuations : List Name)
  | callGraphBuilt (labels edges : Nat)
  | specialized (entry newName : Name) (clones : Nat)
  | callsRedirected (old new : Name) (sites labels : Nat)
  | branchCollapsed (taken : Bool)
  | foldSkipped (op : Operator) (reason : EvalError)
  | simplified (kept dropped folded collapsed : Nat)
  | stepStarted (steps : Nat) (name : Name)
  | halted (name : Name) (steps : Nat)
  | typesChecked (labels expressions : Nat)
deriving Repr, DecidableEq

namespace Event

/-- The level of an event. -/
def level : Event → Level
  | .scopeFound .. | .branchCollapsed .. | .foldSkipped .. | .stepStarted .. => .trace
  | _ => .debug

/-- The wording of an event. -/
def message : Event → String
  | .programBuilt labels nodes => s!"built program: {labels} continuations, {nodes} nodes"
  | .scopeFound entry continuations =>
    let names := Text.commaSeparated (continuations.map Text.quote)
    s!"scope({entry}) = \x7b{names}\x7d"
  | .callGraphBuilt labels edges => s!"call graph: {labels} continuations, {edges} edges"
  | .specialized entry newName clones =>
    s!"mangle({entry}) -> {newName}: cloned {clones} continuations"
  | .callsRedirected old new sites labels =>
    s!"update_callsites({old} -> {new}): {sites} call sites in {labels} continuations"
  | .branchCollapsed taken => s!"BRANCH on {taken} collapsed"
  | .foldSkipped op reason => s!"not folding {op.name}: {reason.message}"
  | .simplified kept dropped folded collapsed =>
    s!"simplify: kept {kept} continuations, dropped {dropped}, folded {folded} expressions, " ++
      s!"collapsed {collapsed} branches"
  | .stepStarted steps name => s!"step {steps}: {name}"
  | .halted name steps => s!"halted on {name} after {steps} steps"
  | .typesChecked labels expressions =>
    s!"type check: {labels} continuations ok, {expressions} expressions typed"

end Event

/-- The outcome of an operation together with the events that it reported, in order. -/
structure Report (ε α : Type) where
  events : List Event
  outcome : Except ε α
deriving Repr

/-- The outcome of an operation that reports one event if it succeeds. -/
def Report.ofSuccess {ε α : Type} (result : Except ε (α × Event)) : Report ε α :=
  match result with
  | .ok (value, event) => ⟨[event], .ok value⟩
  | .error error => ⟨[], .error error⟩

end CpsGraph
