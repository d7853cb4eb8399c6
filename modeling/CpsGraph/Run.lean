import CpsGraph.Evaluation
import CpsGraph.Event
import CpsGraph.Traversal

/-! # Running programs

A configuration is a label that is about to be executed, with the environment in which its
parameters are bound. A step evaluates the body of the label and enters the next one. A run
repeats steps until it is about to execute one of the given halting labels, fails, or has taken as
many steps as it may.
-/

namespace CpsGraph

/-- The label about to be executed and its environment. -/
structure Configuration where
  name : Name
  env : Env
deriving Repr, DecidableEq, Inhabited

/-- Where a run ended: the halting label, the arguments with which it was entered, and the number of
steps taken. -/
structure Halt where
  continuation : Name
  arguments : List Value
  steps : Nat
deriving Repr, DecidableEq, Inhabited

/-- The end of a run at a configuration after some steps. -/
def Configuration.halt (config : Configuration) (steps : Nat) : Halt :=
  ⟨config.name, (config.env.get? config.name).getD [], steps⟩

namespace Program

/-- The closure of a label in the empty environment. -/
def closure (program : Program) (name : Name) : Except EvalError Value := do
  let label ← program.resolve name
  return .closure label.name []

/-- Enter a closure with arguments, one for each parameter. -/
def enter (program : Program) (continuation : Name) (env : Env) (arguments : List Value) :
    Except EvalError Configuration := do
  let label ← program.resolve continuation
  if arguments.length = label.arity then
    return ⟨label.name, env.set label.name arguments⟩
  else
    throw (.argumentCount label.name label.arity arguments.length)

/-- What the body of a label jumps to. The callee of a call is evaluated before its arguments, and
of the targets of a branch only the one that is taken. -/
def jump (program : Program) (env : Env) (name : Name) : Node → EvalM Configuration
  | .call callee arguments => do
    let (continuation, captured) ← (← program.eval env callee).asClosure
    let values ← arguments.mapM (program.eval env)
    program.enter continuation captured values
  | .branch [condition, onTrue, onFalse] => do
    let literal ← (← program.eval env condition).asLiteral
    let target ← program.eval env (if ← literal.asBool then onTrue else onFalse)
    let (continuation, captured) ← target.asClosure
    program.enter continuation captured []
  | .branch arguments => throw (.graph (.malformedBranch arguments.length))
  | node => throw (.graph (.notABody name node.kind))

/-- Execute the body of a label. -/
def step (program : Program) (config : Configuration) : Except EvalError Configuration := do
  let label ← program.resolve config.name
  let body ← program.table.get label.body
  (program.jump config.env label.name body).run' []

/-- The configurations that at most `count` steps lead to, in order, and the error at which the
steps end early. -/
def trace (program : Program) :
    (count : Nat) → Configuration → List Configuration × Option EvalError
  | 0, _ => ([], none)
  | count + 1, config =>
    match program.step config with
    | .error error => ([], some error)
    | .ok next =>
      let (later, error) := program.trace count next
      (next :: later, error)

/-- Run from a configuration, after `steps` steps, for at most `remaining` more steps. -/
def runFor (program : Program) (halts : List Name) :
    (remaining : Nat) → (steps : Nat) → Configuration → Except EvalError Halt
  | remaining, steps, config =>
    if config.name ∈ halts then .ok (config.halt steps)
    else
      match remaining with
      | 0 => .error (.stepLimitExceeded steps)
      | remaining + 1 =>
        match program.step config with
        | .error error => .error error
        | .ok next => program.runFor halts remaining (steps + 1) next

/-- The configuration in which a run begins. -/
def start (program : Program) (entry : Name) (arguments : List Value) :
    Except EvalError Configuration := do
  let (continuation, env) ← (← program.closure entry).asClosure
  program.enter continuation env arguments

/-- Steps are counted in 64 bits, so this is the first number of steps that cannot be counted. -/
def stepCeiling : Nat := UInt64.size

/-- What a run gives if it has no limit. There is no result if its steps cannot be counted, whether it
would halt with the last of them or go on; that the last of them fails is still seen. -/
def counted? : Except EvalError Halt → Option (Except EvalError Halt)
  | .ok halt => if halt.steps < stepCeiling then some (.ok halt) else none
  | .error (.stepLimitExceeded _) => none
  | .error error => some (.error error)

/-- Call a label and run until a halting label is reached, for at most `limit` steps. -/
def runWithin (program : Program) (entry : Name) (arguments : List Value) (halts : List Name)
    (limit : Nat) : Except EvalError Halt := do
  let config ← program.start entry arguments
  program.runFor halts limit 0 config

/-- Call a label and run until a halting label is reached, with an optional limit on the steps.
Without a limit there is no result if the steps cannot be counted. -/
def run (program : Program) (entry : Name) (arguments : List Value) (halts : List Name) :
    (limit : Option UInt64) → Option (Except EvalError Halt)
  | some limit => some (program.runWithin entry arguments halts limit.toNat)
  | none => counted? (program.runWithin entry arguments halts stepCeiling)

/-- What a run from a configuration reports: each step, and where it halted if the steps could be
counted. -/
def eventsFor (program : Program) (halts : List Name) :
    (remaining : Nat) → (steps : Nat) → Configuration → (earlier : List Event) → List Event
  | remaining, steps, config, earlier =>
    if config.name ∈ halts then
      (if steps < stepCeiling then .halted config.name steps :: earlier else earlier).reverse
    else
      match remaining with
      | 0 => earlier.reverse
      | remaining + 1 =>
        let events := .stepStarted steps config.name :: earlier
        match program.step config with
        | .error _ => events.reverse
        | .ok next => program.eventsFor halts remaining (steps + 1) next events

/-- What a run reports. A run that cannot begin reports nothing. -/
def runEvents (program : Program) (entry : Name) (arguments : List Value) (halts : List Name)
    (limit : Option UInt64) : List Event :=
  match program.start entry arguments with
  | .error _ => []
  | .ok config => program.eventsFor halts (limit.elim stepCeiling UInt64.toNat) 0 config []

end Program

end CpsGraph
