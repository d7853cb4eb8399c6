import CpsGraph.Client.Error
import CpsGraph.Program.Basic

/-! # Building programs on request

A client builds a program by requests that name types and operators by text and nodes by handle.
Texts are read before handles are checked, handles are checked before anything is interned, and a
request that fails leaves the program as it was.
-/

namespace CpsGraph.Client

/-- A request to add something to a program. -/
inductive BuildRequest where
  | int (value : Int64)
  | bool (value : Bool)
  | bottom (ty : String)
  | parameter (name : Name) (index : Nat)
  | reference (name : Name)
  | primitive (op : String) (operands : List Handle)
  | cast (source : Handle) (ty : String)
  | call (callee : Handle) (arguments : List Handle)
  | branch (condition onTrue onFalse : Handle)
  | define (name : Name) (signature : String) (body : Handle) (external : Bool)
deriving Repr, DecidableEq

/-- Read the operator that a request names. -/
def readOperator (text : String) : Except ClientError Operator :=
  (Operator.parse? text).elim (.error (.unknownOperator text)) .ok

/-- Serve a request, giving a handle and the program that has grown. -/
def BuildRequest.serve (program : Program) : BuildRequest → Except ClientError (Handle × Program)
  | .int value => return program.intern (.quote (.int value))
  | .bool value => return program.intern (.quote (.bool value))
  | .bottom ty => do
    let ty ← Ty.parse ty
    return program.intern (.quote (.bottom ty))
  | .parameter name index => return program.intern (.parameter name index)
  | .reference name => return program.intern (.abstraction name)
  | .primitive op operands => do
    let op ← readOperator op
    program.checkHandles operands
    return program.intern (.primitive op operands)
  | .cast source ty => do
    let ty ← Ty.parse ty
    program.checkHandles [source]
    return program.intern (.cast source ty)
  | .call callee arguments => do
    program.checkHandles (callee :: arguments)
    return program.intern (.call callee arguments)
  | .branch condition onTrue onFalse => do
    program.checkHandles [condition, onTrue, onFalse]
    return program.intern (.branch [condition, onTrue, onFalse])
  | .define name signature body external => do
    let signature ← Signature.parse signature
    program.checkHandles [body]
    let program ← program.define name signature body external
    let label ← program.resolve name
    return (label.abstraction, program)

/-- How a program under construction presents itself. -/
def describeBuilder (program : Program) : String :=
  s!"<Builder continuations={program.labels.length} nodes={program.size}>"

end CpsGraph.Client
