import CpsGraph.CallGraph
import CpsGraph.Client.Error
import CpsGraph.Dot.CallGraph
import CpsGraph.Run
import CpsGraph.Simplify
import CpsGraph.Specialize
import CpsGraph.Typing

/-! # Asking about programs on request

A client asks a program for analyses, transformations and runs. Transformations answer with a new
program; only the requests that intern a node change the program itself.
-/

namespace CpsGraph.Client

/-- A request to a program that is always answered. -/
inductive Query where
  | names
  | externals
  | parameter (name : Name) (index : Nat)
  | quote (value : Int64)
  | parameterNode (name : Name) (index : Nat)
  | validate
  | typeCheck
  | simplify
  | scope (entry : Name)
  | callGraph
  | toDot
  | callGraphDot
  | specialize (entry newName : Name) (signature : String) (pairs : List (Handle × Handle))
  | redirectCalls (old new : Name) (mapping : List Nat)
  | withExternal (name : Name) (external : Bool)
deriving Repr, DecidableEq

/-- A request to a program: a query, or a run on integers that halts on a label. -/
inductive Request where
  | query (asked : Query)
  | run (entry : Name) (arguments : List Int64) (haltOn : Name) (limit : Option UInt64)
deriving Repr, DecidableEq

/-- The answer to a request. -/
inductive Answer where
  | done
  | handle (handle : Handle)
  | names (names : List Name)
  | edges (edges : List CallEdge)
  | text (text : String)
  | ints (values : List Int64)
  | program (program : Program)
deriving Repr, DecidableEq

/-- The integer that a run ended with. -/
def resultInt (value : Value) : Except ClientError Int64 :=
  value.int?.elim (.error (.nonIntegerResult value)) .ok

/-- Run a label on integers and, as its last argument, the closure of the label on which the run
halts. There is no result if the steps cannot be counted any more. -/
def runInts (program : Program) (entry : Name) (arguments : List Int64) (haltOn : Name)
    (limit : Option UInt64) : Option (Except ClientError (List Int64)) :=
  match program.closure haltOn with
  | .error error => some (.error (.eval error))
  | .ok last =>
    let values := arguments.map (fun value => .literal (.int value)) ++ [last]
    (program.run entry values [haltOn] limit).map fun
      | .error error => .error (.eval error)
      | .ok halt => halt.arguments.mapM resultInt

/-- Answer a query, giving also the program afterwards. -/
def Query.serve (program : Program) : Query → Except ClientError (Answer × Program)
  | .names => return (.names program.names, program)
  | .externals => return (.names (program.externals.map (·.name)), program)
  | .parameter name index => do return (.handle (← program.parameter name index), program)
  | .quote value =>
    let (handle, program) := program.intern (.quote (.int value))
    return (.handle handle, program)
  | .parameterNode name index =>
    let (handle, program) := program.intern (.parameter name index)
    return (.handle handle, program)
  | .validate => do
    program.validate
    return (.done, program)
  | .typeCheck => do
    program.typeCheck
    return (.done, program)
  | .simplify => do return (.program (← program.simplify), program)
  | .scope entry => do return (.names (← program.scope entry).continuations, program)
  | .callGraph => do return (.edges (← program.callGraph).edgesByCaller, program)
  | .toDot => do return (.text (← program.toDot), program)
  | .callGraphDot => do return (.text (← program.callGraph).toDot, program)
  | .specialize entry newName signature pairs => do
    let signature ← Signature.parse signature
    let substitution := Substitution.ofPairs pairs
    (pairs.filter substitution.counts).forM fun (source, target) =>
      program.checkHandles [source, target]
    return (.program (← program.specialize entry newName signature substitution), program)
  | .redirectCalls old new mapping => do
    return (.program (← program.redirectCalls old new mapping), program)
  | .withExternal name external => do
    return (.program (← program.withExternal name external), program)

/-- Serve a request. There is no result for a run whose steps cannot be counted any more. -/
def Request.serve (program : Program) : Request → Option (Except ClientError (Answer × Program))
  | .query asked => some (asked.serve program)
  | .run entry arguments haltOn limit =>
    (runInts program entry arguments haltOn limit).map fun outcome => do
      return (.ints (← outcome), program)

/-- How a program presents itself. -/
def describeProgram (program : Program) : String :=
  s!"<Program continuations={program.labels.length} nodes={program.size}>"

end CpsGraph.Client
