import CpsGraph.Literal
import CpsGraph.Operator.Basic

/-! # Nodes

A program is a graph of nodes. A node refers to its parts by handle, and to continuations and
their parameters by name; names are resolved by the program that holds the node, so programs can
be recursive although the handles of a node always point backwards.
-/

namespace CpsGraph

/-- The position of a node in its table. -/
abbrev Handle := Nat

/-- The name of a continuation. -/
abbrev Name := String

/-- A node of a program.

* `continuation` is a named block with a body.
* `call` evaluates a callee to a closure and jumps to it; `branch` chooses between two targets by a
  condition, and is well formed with exactly three arguments.
* `primitive` applies an operator, and `cast` converts between integers and booleans.
* `abstraction` is the closure of a named continuation, `parameter` one of its parameters, and
  `quote` a constant. -/
inductive Node where
  | continuation (name : Name) (signature : Signature) (body : Handle)
  | call (callee : Handle) (arguments : List Handle)
  | branch (arguments : List Handle)
  | primitive (op : Operator) (operands : List Handle)
  | abstraction (target : Name)
  | parameter (target : Name) (index : Nat)
  | quote (literal : Literal)
  | cast (source : Handle) (ty : Ty)
deriving Repr, DecidableEq, Inhabited

/-- The kinds of nodes. -/
inductive NodeKind where
  | continuation
  | call
  | intrinsic
  | primitive
  | abstraction
  | parameter
  | quote
  | cast
deriving Repr, DecidableEq

/-- The printed form of a node kind. -/
def NodeKind.render : NodeKind → String
  | .continuation => "Continuation"
  | .call => "Call"
  | .intrinsic => "Intrinsic"
  | .primitive => "PrimOp"
  | .abstraction => "Abstraction"
  | .parameter => "Parameter"
  | .quote => "Quote"
  | .cast => "Cast"

namespace Node

/-- The kind of a node. -/
def kind : Node → NodeKind
  | .continuation .. => .continuation
  | .call .. => .call
  | .branch .. => .intrinsic
  | .primitive .. => .primitive
  | .abstraction .. => .abstraction
  | .parameter .. => .parameter
  | .quote .. => .quote
  | .cast .. => .cast

/-- Whether a node can be the body of a continuation. -/
def isBody : Node → Bool
  | .call .. | .branch .. => true
  | _ => false

/-- Whether a node is an expression, neither a body nor a continuation. -/
def isExpression : Node → Bool
  | .continuation .. | .call .. | .branch .. => false
  | _ => true

/-- The handles inside a node, from left to right. -/
def children : Node → List Handle
  | .continuation _ _ body => [body]
  | .call callee arguments => callee :: arguments
  | .branch arguments => arguments
  | .primitive _ operands => operands
  | .abstraction _ => []
  | .parameter _ _ => []
  | .quote _ => []
  | .cast source _ => [source]

/-- Replace the handles inside a node. -/
def mapChildren (f : Handle → Handle) : Node → Node
  | .continuation name signature body => .continuation name signature (f body)
  | .call callee arguments => .call (f callee) (arguments.map f)
  | .branch arguments => .branch (arguments.map f)
  | .primitive op operands => .primitive op (operands.map f)
  | .abstraction target => .abstraction target
  | .parameter target index => .parameter target index
  | .quote literal => .quote literal
  | .cast source ty => .cast (f source) ty

/-- A node without the identity of its children. -/
def shape (node : Node) : Node := node.mapChildren fun _ => 0

/-- Whether two nodes agree in everything but the identity of their children. -/
def sameShape (a b : Node) : Bool := a.shape = b.shape

/-- The literal of a quoted constant whose value is known. -/
def known? : Node → Option Literal
  | .quote literal => if literal.isKnown then some literal else none
  | _ => none

theorem children_mapChildren (f : Handle → Handle) (node : Node) :
    (node.mapChildren f).children = node.children.map f := by
  cases node <;> rfl

end Node

end CpsGraph
