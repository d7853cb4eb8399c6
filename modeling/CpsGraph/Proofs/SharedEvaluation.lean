import CpsGraph.Proofs.DirectEvaluation
import CpsGraph.Proofs.UnfoldedTrees
import CpsGraph.Samples

/-! # Evaluation of shared expressions

A node that several expressions share is evaluated once in a step, and a failure is not remembered.
Neither can be observed. The evaluator gives what the expression gives as it is written, with every
part evaluated wherever it occurs, and the same error first if there is one. A step, which has one
memory for all that it evaluates, does what it would do with a new memory for each of them.
-/

namespace CpsGraph

namespace Tree

mutual

/-- The value of an expression as it is written. -/
def value (program : Program) (env : Env) : Tree → Except EvalError Value
  | .primitive op operands => do
    let literals ← literals program env operands
    return .literal (← op.evaluate literals)
  | .abstraction target => do
    let label ← program.resolve target
    return .closure label.name env
  | .parameter target index => program.parameterValue env target index
  | .quote literal => return .literal literal
  | .cast source ty => do
    let literal ← (← source.value program env).asLiteral
    return .literal (← literal.cast ty)
  | tree => throw (.graph (.notAnExpression tree.shape.kind))

/-- The literals that some expressions are, from left to right. -/
def literals (program : Program) (env : Env) : List Tree → Except EvalError (List Literal)
  | [] => return []
  | operand :: operands => do
    let literal ← (← operand.value program env).asLiteral
    return literal :: (← literals program env operands)

end

theorem literals_eq_mapM (program : Program) (env : Env) (operands : List Tree) :
    literals program env operands =
      operands.mapM fun operand => operand.value program env >>= Value.asLiteral := by
  induction operands with
  | nil => simp [literals]
  | cons operand operands ih => simp [literals, ih, List.mapM_cons]

end Tree

namespace Program

variable {program : Program} {env : Env} {handle : Handle} {tree : Tree}

/-- A node has the value of its tree. -/
theorem value_eq_tree (wellFormed : program.table.WellFormed)
    (unfolded : program.table.tree? handle = some tree) :
    program.value env handle = tree.value program env := by
  induction handle using Nat.strongRecOn generalizing tree with
  | ind handle ih =>
    obtain ⟨node, present⟩ := Table.exists_get?_of_tree? unfolded
    have older {child : Handle} (isChild : child ∈ node.children) := wellFormed.child_lt present isChild
    rw [wellFormed.tree?_eq present] at unfolded
    rw [value_of_get? wellFormed present]
    cases Node.tree?_eq_some_iff.mp unfolded with
    | @primitive op operands trees atOperands =>
      have literals : (operands.mapM fun operand => program.value env operand >>= Value.asLiteral) =
          trees.mapM fun tree => tree.value program env >>= Value.asLiteral :=
        Results.mapM_eq_of_related atOperands fun operand tree isOperand atOperand => by
          rw [ih operand (older isOperand) atOperand]
      rw [valueNode, literals, Tree.value, Tree.literals_eq_mapM]
    | cast atSource => rw [valueNode, Tree.value, ih _ (older List.mem_cons_self) atSource]
    | abstraction | parameter | quote => rw [valueNode, Tree.value]
    | continuation | call | branch => simp [valueNode, Tree.value, Node.kind, Tree.shape]

/-- Execute the body of a label, with a new memory for the callee and for each argument, or for the
condition and for the target that is taken. -/
def stepAfresh (program : Program) (config : Configuration) : Except EvalError Configuration := do
  let label ← program.resolve config.name
  let body ← program.table.get label.body
  program.jumpBy (program.evaluate config.env) label.name body

theorem step_eq_stepAfresh (wellFormed : program.table.WellFormed) (config : Configuration) :
    program.step config = program.stepAfresh config := by
  have evaluated : program.evaluate config.env = program.value config.env :=
    funext fun handle => evaluate_eq_value wellFormed
  rw [step_eq_stepTo wellFormed, stepTo, stepAfresh, evaluated]
  rfl

/-- Remembering values cannot be observed: evaluating a node gives its direct value, which is the
value of the expression as it is written, and a step does what it does with a new memory for each
evaluation. In each case this includes which error comes first. -/
theorem evaluate_step_memoryless (wellFormed : program.WellFormed) :
    (∀ env handle, program.evaluate env handle = program.value env handle) ∧
    (∀ env handle tree, program.table.tree? handle = some tree →
      program.evaluate env handle = tree.value program env) ∧
    ∀ config, program.step config = program.stepAfresh config := by
  refine ⟨fun env handle => evaluate_eq_value wellFormed.table, ?_,
    step_eq_stepAfresh wellFormed.table⟩
  intro env handle tree unfolded
  rw [evaluate_eq_value wellFormed.table, value_eq_tree wellFormed.table unfolded]

/-- Minus one, squared thirty-two times: as it is written, the expression has more than `2 ^ 32`
parts. Where the number is not bound, each of them fails alike. -/
theorem evaluate_step_memoryless_squares :
    let program := (Samples.squaringChain 32).toOption.getD {}
    let env : Env := [("f", [.literal (.int (-1)), .closure "f" []])]
    program.WellFormed ∧ program.value env 32 = .ok (.literal (.int 1)) ∧
    program.value [] 32 = .error (.unboundParameter "f" 0) ∧
    (∃ tree, program.table.tree? 32 = some tree ∧
      tree.value program env = .ok (.literal (.int 1))) ∧
    program.stepAfresh ⟨"f", env⟩ = .error (.argumentCount "f" 2 1) := by
  intro program env
  obtain ⟨wellFormed, inRange, bound, unbound, stepped⟩ :
      program.WellFormed ∧ 32 < program.size ∧
      program.evaluate env 32 = .ok (.literal (.int 1)) ∧
      program.evaluate [] 32 = .error (.unboundParameter "f" 0) ∧
      program.step ⟨"f", env⟩ = .error (.argumentCount "f" 2 1) := by decide +kernel
  obtain ⟨direct, written, afresh⟩ := evaluate_step_memoryless wellFormed
  obtain ⟨tree, unfolded⟩ := wellFormed.table.exists_tree? inRange
  refine ⟨wellFormed, ?_, ?_, ⟨tree, unfolded, ?_⟩, ?_⟩
  · rw [← direct, bound]
  · rw [← direct, unbound]
  · rw [← written env 32 tree unfolded, bound]
  · rw [← afresh, stepped]

end Program

end CpsGraph
