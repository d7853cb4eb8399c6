import CpsGraph.Proofs.SharedEvaluation
import CpsGraph.Proofs.SubstitutedTrees

/-! # Executing code as it is written

A program lists a label with its signature and with its body as a tree. To know what a step does, the
listing is enough: an operator, a closure and a parameter have the values that the tree shows, and a
call or a branch jumps where its parts say. Handles do not occur, and whether a program lists a label
can be computed.
-/

namespace CpsGraph

theorem Tree.value_quote {program : Program} {env : Env} {literal : Literal} :
    (Tree.quote literal).value program env = .ok (.literal literal) := by
  rw [Tree.value]
  rfl

/-- An operator with two operands is applied to their values. -/
theorem Tree.value_binary {program : Program} {env : Env} {op : Operator} {left right : Tree}
    {x y result : Literal} (atLeft : left.value program env = .ok (.literal x))
    (atRight : right.value program env = .ok (.literal y))
    (applied : op.evaluate [x, y] = .ok result) :
    (Tree.primitive op [left, right]).value program env = .ok (.literal result) := by
  have literals : Tree.literals program env [left, right] = .ok [x, y] := by
    simp only [Tree.literals, atLeft, atRight]
    rfl
  rw [Tree.value, Results.bind_eq_ok_iff]
  refine ⟨[x, y], literals, ?_⟩
  rw [applied]
  rfl

namespace Program

/-- A program has a label with a signature and with a body as it is written. -/
def Lists (program : Program) (name : Name) (signature : Signature) (body : Tree) : Prop :=
  ∃ label, program.find? name = some label ∧ label.signature = signature ∧
    program.table.tree? label.body = some body

/-- Look up whether a program has a label with a signature and with a body as it is written. -/
def lists (program : Program) (name : Name) (signature : Signature) (body : Tree) : Bool :=
  (program.find? name).any fun label =>
    label.signature = signature ∧ body.handle? program.table = some label.body

variable {program : Program} {env captured : Env} {name continuation : Name}
  {signature target : Signature} {body code : Tree}

theorem lists_iff (wellFormed : program.table.WellFormed) :
    program.lists name signature body = true ↔ program.Lists name signature body := by
  simp [lists, Lists, Option.any_eq_true, wellFormed.handle?_eq_some_iff]

namespace Lists

theorem closure (listed : program.Lists name signature body) :
    program.closure name = .ok (.closure name []) := by
  obtain ⟨label, found, -, -⟩ := listed
  rw [Program.closure, resolve_eq_ok_iff.mpr found, ← name_of_find? found]
  rfl

theorem value_abstraction (listed : program.Lists name signature body) :
    (Tree.abstraction name).value program env = .ok (.closure name env) := by
  obtain ⟨label, found, -, -⟩ := listed
  rw [Tree.value, resolve_eq_ok_iff.mpr found, ← name_of_find? found]
  rfl

/-- A parameter has the value that it was last bound to. -/
theorem value_parameter (listed : program.Lists name signature body)
    (wellFormed : program.WellFormed) {index : Nat} {arguments : List Value} {value : Value}
    (inRange : index < signature.length) (bound : env.get? name = some arguments)
    (atIndex : arguments[index]? = some value) :
    (Tree.parameter name index).value program env = .ok value := by
  obtain ⟨label, found, rfl, -⟩ := listed
  obtain ⟨parameter, known⟩ := wellFormed.exists_parameter_iff.mpr ⟨label, found, inRange⟩
  rw [Tree.value, parameterValue_eq_ok_iff]
  exact ⟨parameter, arguments, known, bound, atIndex⟩

/-- A listed label is entered with one argument for each parameter. -/
theorem enter (listed : program.Lists name signature body) {arguments : List Value}
    (fits : arguments.length = signature.length) :
    program.enter name env arguments = .ok ⟨name, env.set name arguments⟩ := by
  obtain ⟨label, found, rfl, -⟩ := listed
  exact enter_eq_ok_iff.mpr ⟨label, found, fits, rfl⟩

/-- A step jumps where the listed body does, whatever node it is the tree of. -/
theorem step_of_jumps (listed : program.Lists name signature body) (wellFormed : program.WellFormed)
    {next : Configuration}
    (jumps : ∀ node : Node, node.Unfolds program.table.tree? body → program.Jumps env node next) :
    program.step ⟨name, env⟩ = .ok next := by
  obtain ⟨label, found, -, unfolded⟩ := listed
  obtain ⟨node, present⟩ := Table.exists_get?_of_tree? unfolded
  rw [wellFormed.table.tree?_eq present] at unfolded
  refine (step_eq_ok_iff wellFormed.table).mpr ⟨label, node, found, present, ?_⟩
  exact jumps node (Node.tree?_eq_some_iff.mp unfolded)

/-- A call enters the closure that the callee is, with the values of the arguments. -/
theorem step_call {callee : Tree} {arguments : List Tree} {values : List Value}
    (listed : program.Lists name signature (.call callee arguments)) (wellFormed : program.WellFormed)
    (atCallee : callee.value program env = .ok (.closure continuation captured))
    (atArguments : List.Forall₂ (fun tree value => tree.value program env = .ok value) arguments values)
    (called : program.Lists continuation target code) (fits : values.length = target.length) :
    program.step ⟨name, env⟩ = .ok ⟨continuation, captured.set continuation values⟩ := by
  refine listed.step_of_jumps wellFormed fun node unfolds => ?_
  cases unfolds with
  | call calleeTree argumentTrees =>
    refine .call ((value_eq_tree wellFormed.table calleeTree).trans atCallee) ?_ (called.enter fits)
    refine Results.forall₂_of_common argumentTrees.flip atArguments fun tree handle value _ _ => ?_
    exact fun unfolded evaluated => (value_eq_tree wellFormed.table unfolded).trans evaluated

/-- A branch enters the closure that the target is which the condition chooses. -/
theorem step_branch {condition onTrue onFalse : Tree} {taken : Bool}
    (listed : program.Lists name signature (.branch [condition, onTrue, onFalse]))
    (wellFormed : program.WellFormed)
    (atCondition : condition.value program env = .ok (.literal (.bool taken)))
    (atTarget : (if taken then onTrue else onFalse).value program env =
      .ok (.closure continuation captured))
    (chosen : program.Lists continuation [] code) :
    program.step ⟨name, env⟩ = .ok ⟨continuation, captured.set continuation []⟩ := by
  refine listed.step_of_jumps wellFormed fun node unfolds => ?_
  cases unfolds with
  | branch argumentTrees =>
    rcases argumentTrees with _ | ⟨conditionTree, _ | ⟨trueTree, _ | ⟨falseTree, _ | _⟩⟩⟩
    refine .branch ((value_eq_tree wellFormed.table conditionTree).trans atCondition) ?_
      (chosen.enter rfl)
    cases taken with
    | true => exact (value_eq_tree wellFormed.table trueTree).trans atTarget
    | false => exact (value_eq_tree wellFormed.table falseTree).trans atTarget

/-- A comparison that chooses between two labels without parameters. -/
theorem step_lessEq {left right : Tree} {onTrue onFalse : Name} {x y : Int64} {otherCode : Tree}
    (listed : program.Lists name signature
      (.branch [.primitive .lessEq [left, right], .abstraction onTrue, .abstraction onFalse]))
    (wellFormed : program.WellFormed)
    (atLeft : left.value program env = .ok (.literal (.int x)))
    (atRight : right.value program env = .ok (.literal (.int y)))
    (whenTrue : program.Lists onTrue [] code) (whenFalse : program.Lists onFalse [] otherCode) :
    program.step ⟨name, env⟩ =
      .ok (if x ≤ y then ⟨onTrue, env.set onTrue []⟩ else ⟨onFalse, env.set onFalse []⟩) := by
  have compared : (Tree.primitive .lessEq [left, right]).value program env =
      .ok (.literal (.bool (x ≤ y))) := Tree.value_binary atLeft atRight rfl
  by_cases le : x ≤ y
  · rw [if_pos le]
    refine listed.step_branch wellFormed compared ?_ whenTrue
    rw [decide_eq_true le]
    exact whenTrue.value_abstraction
  · rw [if_neg le]
    refine listed.step_branch wellFormed compared ?_ whenFalse
    rw [decide_eq_false le]
    exact whenFalse.value_abstraction

end Lists

end Program

end CpsGraph
