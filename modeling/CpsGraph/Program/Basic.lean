import CpsGraph.Node.Table

/-! # Programs

A program is a table of nodes together with its labels: the continuations that can be entered by
name, in order of definition. Defining a label also interns the nodes that stand for the label
itself, for its closure and for its parameters.
-/

namespace CpsGraph

/-- A continuation that can be entered by name. The handles `node`, `abstraction` and `parameters`
denote the continuation itself, its closure and its parameters. An external label is a root that
must survive when unused labels are dropped. -/
structure Label where
  name : Name
  signature : Signature
  body : Handle
  node : Handle
  abstraction : Handle
  parameters : List Handle
  external : Bool
deriving Repr, DecidableEq, Inhabited

/-- The number of parameters of a label. -/
def Label.arity (label : Label) : Nat := label.signature.arity

/-- A table of nodes and the labels in order of definition. -/
structure Program where
  table : Table := {}
  labels : List Label := []
deriving Repr, DecidableEq, Inhabited

namespace Program

/-- The number of nodes. -/
def size (program : Program) : Nat := program.table.size

/-- The names of the labels in order of definition. -/
def names (program : Program) : List Name := program.labels.map (·.name)

/-- The label with a name. -/
def find? (program : Program) (name : Name) : Option Label :=
  program.labels.find? (·.name == name)

/-- Whether a name is a label. -/
def contains (program : Program) (name : Name) : Bool := (program.find? name).isSome

/-- The label with a name, or the error that there is none. -/
def resolve (program : Program) (name : Name) : Except GraphError Label :=
  (program.find? name).elim (.error (.unboundName name)) .ok

/-- The handle of a parameter of a label. -/
def parameter (program : Program) (name : Name) (index : Nat) : Except GraphError Handle := do
  let label ← program.resolve name
  match label.parameters[index]? with
  | some handle => return handle
  | none => throw (.parameterOutOfRange label.name index label.arity)

/-- The labels that must survive, in order of definition. -/
def externals (program : Program) : List Label := program.labels.filter (·.external)

/-- Intern a node. -/
def intern (program : Program) (node : Node) : Handle × Program :=
  let (handle, table) := program.table.intern node
  (handle, { program with table })

/-- Mark a label as external or not. -/
def withExternal (program : Program) (name : Name) (external : Bool) :
    Except GraphError Program := do
  let _ ← program.resolve name
  return { program with
    labels := program.labels.map fun label =>
      if label.name = name then { label with external } else label }

/-- Whether a name is neither a label nor reserved. -/
def isUnused (program : Program) (reserved : List Name) (name : Name) : Bool :=
  !program.contains name && !reserved.contains name

/-- The candidate with a number for a fresh name. -/
def numberedName (base : Name) (number : Nat) : Name := s!"{base}_{number}"

/-- The first unused name among `base_1`, `base_2`, …. One more candidate than there are labels and
reserved names is enough. -/
def freshName (program : Program) (base : Name) (reserved : List Name) : Name :=
  let candidates := List.range' 1 (program.labels.length + reserved.length + 1)
  let first := candidates.find? fun number => program.isUnused reserved (numberedName base number)
  numberedName base (first.getD 0)

/-- A handle of the program, or the error that there is no such node. -/
def checkHandle (program : Program) (handle : Handle) : Except GraphError Handle :=
  if handle < program.size then .ok handle else .error (.unknownHandle handle)

/-- Check that all handles are nodes of the program; the error names the first that is not. -/
def checkHandles (program : Program) (handles : List Handle) : Except GraphError Unit :=
  handles.forM fun handle => do let _ ← program.checkHandle handle

end Program

/-- Intern the nodes of a label whose body is already there: the continuation, its closure and its
parameters, in this order. -/
def Table.register (table : Table) (name : Name) (signature : Signature) (body : Handle)
    (external : Bool) : Except GraphError (Label × Table) := do
  let bodyNode ← table.get body
  if bodyNode.isBody then
    let (node, table) := table.intern (.continuation name signature body)
    let (abstraction, table) := table.intern (.abstraction name)
    let (parameters, table) :=
      table.internAll ((List.range signature.arity).map (.parameter name))
    return ({ name, signature, body, node, abstraction, parameters, external }, table)
  else
    throw (.notABody name bodyNode.kind)

namespace Program

/-- Define a new label. The name is checked before the body. -/
def define (program : Program) (name : Name) (signature : Signature) (body : Handle)
    (external : Bool) : Except GraphError Program := do
  if program.contains name then throw (.duplicateLabel name)
  let (label, table) ← program.table.register name signature body external
  return { table, labels := program.labels ++ [label] }

/-- Give a label another body. Its place, signature and mark stay. -/
def redefine (program : Program) (name : Name) (body : Handle) : Except GraphError Program := do
  let old ← program.resolve name
  let (label, table) ← program.table.register old.name old.signature body old.external
  return { table
           labels := program.labels.map fun other => if other.name = name then label else other }

end Program

end CpsGraph
