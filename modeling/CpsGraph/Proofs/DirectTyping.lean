import CpsGraph.Proofs.Remembering
import CpsGraph.Proofs.TypeChecking
import CpsGraph.Samples

/-! # Type checking without a memory

The direct type of an expression is inferred from its parts, as often as they occur. The checker
remembers types from one label to the next, although an error names the label in whose body it was
found. This cannot be observed: only types are remembered, and these do not depend on the label. So
checking a program gives what checking its labels one after the other without a memory gives, with the
same error, and it succeeds exactly if the program follows the typing rules.
-/

namespace CpsGraph

namespace Program

/-- Check that an expression has the expected type, given its type. -/
def expectDirectly (continuation : Name) (expected : Ty) (inferred : Except TypingError Ty) :
    Except TypingError Unit := do
  let actual ← inferred
  if actual ≠ expected then throw (.mismatch continuation expected actual)

/-- The type of a node, given the types of its children. -/
def tyNode (program : Program) (continuation : Name) (ty : Handle → Except TypingError Ty) :
    Node → Except TypingError Ty
  | .primitive op operands => do
    if operands.length ≠ op.arity then
      throw (.arity continuation op op.arity operands.length)
    operands.forM fun operand => expectDirectly continuation op.operandTy (ty operand)
    return op.resultTy
  | .abstraction target => do return .fn (← program.resolve target).signature
  | .parameter target index => program.parameterTy target index
  | .quote literal => return literal.ty
  | .cast source target => do
    let actual ← ty source
    if actual.castable target then return target
    else throw (.unsupportedCast continuation actual target)
  | node => throw (.graph (.notAnExpression node.kind))

/-- The direct type of the node at a handle below `bound`. -/
def tyBelow (program : Program) (continuation : Name) : (bound : Nat) → Handle → Except TypingError Ty
  | 0, handle => throw (.graph (.unknownHandle handle))
  | bound + 1, handle => do
    let node ← program.table.get handle
    program.tyNode continuation (program.tyBelow continuation bound) node

/-- The direct type of an expression in the body of a continuation. -/
def directTy (program : Program) (continuation : Name) (handle : Handle) : Except TypingError Ty :=
  program.tyBelow continuation (handle + 1) handle

/-- Check a body by direct types. -/
def checkBodyDirectly (program : Program) (continuation : Name) : Node → Except TypingError Unit
  | .call callee arguments => do
    match ← program.directTy continuation callee with
    | .fn params =>
      if params.length ≠ arguments.length then
        throw (.argumentCount continuation params.length arguments.length)
      (params.zip arguments).forM fun (expected, argument) =>
        expectDirectly continuation expected (program.directTy continuation argument)
    | actual => throw (.notCallable continuation actual)
  | .branch [condition, onTrue, onFalse] => do
    expectDirectly continuation .bool (program.directTy continuation condition)
    expectDirectly continuation (.fn []) (program.directTy continuation onTrue)
    expectDirectly continuation (.fn []) (program.directTy continuation onFalse)
  | .branch arguments => throw (.graph (.malformedBranch arguments.length))
  | node => throw (.graph (.notABody continuation node.kind))

/-- Check the body of a label without remembering anything. -/
def checkDirectly (program : Program) (label : Label) : Except TypingError Unit := do
  let body ← program.table.get label.body
  program.checkBodyDirectly label.name body

variable {program : Program} {continuation : Name} {handle : Handle} {node : Node}

theorem tyNode_congr {first second : Handle → Except TypingError Ty}
    (same : ∀ child ∈ node.children, first child = second child) :
    program.tyNode continuation first node = program.tyNode continuation second node := by
  cases node with
  | primitive op operands =>
    have checked : (operands.forM fun operand =>
        expectDirectly continuation op.operandTy (first operand)) =
        operands.forM fun operand => expectDirectly continuation op.operandTy (second operand) :=
      Results.forM_congr fun operand member => by rw [same operand member]
    simp only [tyNode, checked]
  | cast source target => simp only [tyNode, same source (List.mem_singleton_self source)]
  | _ => rfl

/-- On a well-formed table every bound above a handle gives the same direct type. -/
theorem tyBelow_eq_directTy (wellFormed : program.table.WellFormed) {bound : Nat}
    (inRange : handle < bound) :
    program.tyBelow continuation bound handle = program.directTy continuation handle := by
  induction handle using Nat.strongRecOn generalizing bound with
  | ind handle ih =>
    obtain ⟨bound, rfl⟩ := Nat.exists_eq_succ_of_ne_zero (Nat.ne_zero_of_lt inRange)
    rw [directTy, tyBelow, tyBelow]
    cases present : program.table.get? handle with
    | none => rw [Table.get, present]; rfl
    | some node =>
      rw [Table.get_eq_ok_iff.mpr present]
      refine tyNode_congr fun child part => ?_
      have older := wellFormed.child_lt present part
      rw [ih child older older,
        ih child older (Nat.lt_of_lt_of_le older (Nat.le_of_lt_succ inRange))]

/-- The direct type of a node is made of the direct types of its parts. -/
theorem directTy_eq (wellFormed : program.table.WellFormed) :
    program.directTy continuation handle = (do
      let node ← program.table.get handle
      program.tyNode continuation (program.directTy continuation) node) := by
  rw [directTy, tyBelow]
  cases present : program.table.get? handle with
  | none => rw [Table.get, present]; rfl
  | some node =>
    rw [Table.get_eq_ok_iff.mpr present]
    exact tyNode_congr fun child part =>
      tyBelow_eq_directTy wellFormed (wellFormed.child_lt present part)

/-- A structural step of the checker does not use its memory. -/
theorem follows_structure {α : Type} {Sound : KnownTypes → Prop} (step : Except GraphError α) :
    Follows Sound (liftM step : TypingM α) (liftM step : Except TypingError α) := by
  intro memory sound
  cases step with
  | error fault => rfl
  | ok result => exact ⟨memory, sound, rfl⟩

section Children

variable {Sound : KnownTypes → Prop} {infer : Handle → TypingM Ty} {ty : Handle → Except TypingError Ty}

theorem follows_expectTy (continuation : Name) (expected : Ty)
    (follows : Follows Sound (infer handle) (ty handle)) :
    Follows Sound (expectTy infer continuation expected handle)
      (expectDirectly continuation expected (ty handle)) := by
  refine follows.bind fun actual _ => ?_
  split_ifs
  · exact .throw _
  · exact .pure ()

/-- Inferring the type of a node follows its direct type if this is so for its children. -/
theorem follows_inferNode
    (children : ∀ child ∈ node.children, Follows Sound (infer child) (ty child)) :
    Follows Sound (program.inferNode continuation infer node)
      (program.tyNode continuation ty node) := by
  cases node with
  | primitive op operands =>
    by_cases arity : operands.length = op.arity
    · simp only [inferNode, tyNode, arity, ne_eq, not_true, if_false]
      refine (Follows.forM fun operand member => ?_).bind fun _ _ => .pure _
      exact follows_expectTy continuation op.operandTy (children operand member)
    · simp only [inferNode, tyNode, ne_eq, arity, not_false_eq_true, if_true]
      exact .throw _
  | abstraction target => exact (follows_structure (program.resolve target)).bind fun label _ => .pure _
  | parameter target index => exact follows_structure _
  | quote literal => exact .pure _
  | cast source target =>
    refine (children source (List.mem_singleton_self source)).bind fun actual _ => ?_
    split_ifs
    · exact .pure _
    · exact .throw _
  | _ => exact .throw _

end Children

/-- The checker infers direct types, whatever right types it remembers. -/
theorem follows_inferBelow (wellFormed : program.table.WellFormed) {bound : Nat}
    (inRange : handle < bound) :
    Follows (Remembers (program.directTy continuation))
      (program.inferBelow continuation bound handle) (program.directTy continuation handle) := by
  induction bound generalizing handle with
  | zero => exact absurd inRange (Nat.not_lt_zero handle)
  | succ bound ih =>
    have searched : Follows (Remembers (program.directTy continuation))
        (do program.inferNode continuation (program.inferBelow continuation bound)
              (← program.table.get handle) : TypingM Ty)
        (program.directTy continuation handle) := by
      rw [directTy_eq wellFormed]
      refine (follows_structure (program.table.get handle)).bind fun node found => ?_
      have present := Table.get_eq_ok_iff.mp (Results.mapError_eq_ok_iff.mp found)
      refine follows_inferNode fun child part => ih ?_
      exact Nat.lt_of_lt_of_le (wellFormed.child_lt present part) (Nat.le_of_lt_succ inRange)
    refine Remembers.follows_recall (fun memory => ?_) (Remembers.follows_store searched)
    simp only [inferBelow, bind_assoc, StateT.run_bind, StateT.run_get, pure_bind]
    cases memory.lookup handle <;> rfl

theorem follows_typeOf (wellFormed : program.table.WellFormed) (continuation : Name)
    (handle : Handle) :
    Follows (Remembers (program.directTy continuation)) (program.typeOf continuation handle)
      (program.directTy continuation handle) :=
  follows_inferBelow wellFormed (Nat.lt_succ_self handle)

/-- The direct type of an expression is the type that the rules give, for every continuation. -/
theorem directTy_eq_ok_iff (wellFormed : program.WellFormed) {ty : Ty} :
    program.directTy continuation handle = .ok ty ↔ program.HasTy handle ty := by
  rw [← typeOf_eq_ok_iff wellFormed, (follows_typeOf wellFormed.table continuation handle).run_eq .nil]

/-- So it does not matter for which continuation a type was inferred. -/
theorem remembers_directTy (wellFormed : program.WellFormed) (continuation : Name) :
    Remembers (program.directTy continuation) = program.RightTypes := by
  funext known
  simp only [Remembers, RightTypes, directTy_eq_ok_iff wellFormed]

theorem rightTypes_nil (program : Program) : program.RightTypes [] := by
  intro handle ty present
  cases present

/-- Checking a body, with all right types that were remembered for other labels, follows its check by
direct types. -/
theorem follows_checkBody (wellFormed : program.table.WellFormed) (continuation : Name) (node : Node) :
    Follows (Remembers (program.directTy continuation)) (program.checkBody continuation node)
      (program.checkBodyDirectly continuation node) := by
  have infers := follows_typeOf wellFormed continuation
  have expects (expected : Ty) (handle : Handle) :=
    follows_expectTy continuation expected (infers handle)
  cases node with
  | call callee arguments =>
    refine (infers callee).bind fun actual _ => ?_
    cases actual with
    | fn params =>
      by_cases count : params.length = arguments.length
      · simp only [count, ne_eq, not_true, if_false]
        exact .forM fun pair _ => expects pair.1 pair.2
      · simp only [ne_eq, count, not_false_eq_true, if_true]
        exact .throw _
    | _ => exact .throw _
  | branch arguments =>
    rcases arguments with _ | ⟨condition, _ | ⟨onTrue, _ | ⟨onFalse, _ | ⟨more, rest⟩⟩⟩⟩
    · exact .throw _
    · exact .throw _
    · exact .throw _
    · refine (expects .bool condition).bind fun _ _ => ?_
      exact (expects (.fn []) onTrue).bind fun _ _ => expects (.fn []) onFalse
    · exact .throw _
  | _ => exact .throw _

theorem follows_checkLabel (wellFormed : program.WellFormed) (label : Label) :
    Follows program.RightTypes (program.checkLabel label) (program.checkDirectly label) := by
  refine (follows_structure (program.table.get label.body)).bind fun body _ => ?_
  have follows := follows_checkBody wellFormed.table label.name body
  rwa [remembers_directTy wellFormed] at follows

/-- Checking a program with one memory gives what the labels give without a memory. -/
theorem typeCheck_eq_forM (wellFormed : program.WellFormed) :
    program.typeCheck = program.labels.forM program.checkDirectly := by
  have follows : Follows program.RightTypes (program.labels.forM program.checkLabel)
      (program.labels.forM program.checkDirectly) :=
    .forM fun label _ => follows_checkLabel wellFormed label
  have ran := follows [] program.rightTypes_nil
  rw [typeCheck, typeCheckReport]
  cases direct : program.labels.forM program.checkDirectly with
  | error error =>
    rw [direct] at ran
    rw [show (program.labels.forM program.checkLabel).run [] = .error error from ran]
    rfl
  | ok =>
    rw [direct] at ran
    obtain ⟨known, -, ran⟩ := ran
    rw [ran]
    rfl

/-- Type checking decides the typing rules, and its memory cannot be observed: the result, with the
error and the label that it names, is that of checking the labels in order with a new memory for each,
and also that of checking them without any memory. -/
theorem typeCheck_memoryless (wellFormed : program.WellFormed) :
    program.typeCheck = program.labels.forM program.checkDirectly ∧
    program.typeCheck = program.labels.forM (fun label => (program.checkLabel label).run' []) ∧
    (program.typeCheck = .ok () ↔ program.Typed) := by
  have direct := typeCheck_eq_forM wellFormed
  refine ⟨direct, ?_, typeCheck_eq_ok_iff wellFormed⟩
  rw [direct]
  refine Results.forM_congr fun label _ => ?_
  exact ((follows_checkLabel wellFormed label).run_eq program.rightTypes_nil).symm

end Program

/-- A number that is passed on as such by one label and as a truth value by another. -/
def Samples.misused : Program :=
  (Build.run do
    let x ← Build.parameter "f" 0
    let one ← Build.int 1
    let next ← Build.primitive .add [x, one]
    let k ← Build.parameter "f" 1
    let _ ← Build.define "f" [.int, .fn [.int]] (← Build.call k [next]) true
    let j ← Build.parameter "g" 0
    let _ ← Build.define "g" [.fn [.bool]] (← Build.call j [next])).toOption.getD {}

/-- The second label is blamed, although the type was inferred for the first. A chain of squares is
accepted, and without a memory more than `2 ^ 32` types are inferred for it. -/
theorem Program.typeCheck_memoryless_misused :
    let program := Samples.misused
    let squares := (Samples.squaringChain 32).toOption.getD {}
    program.WellFormed ∧
    program.labels.forM program.checkDirectly = .error (.mismatch "g" .bool .int) ∧
    ¬ program.Typed ∧
    squares.WellFormed ∧ squares.labels.forM squares.checkDirectly = .ok () ∧ squares.Typed := by
  intro program squares
  obtain ⟨wellFormed, refused, squaresWellFormed, accepted⟩ :
      program.WellFormed ∧ program.typeCheck = .error (.mismatch "g" .bool .int) ∧
      squares.WellFormed ∧ squares.typeCheck = .ok () := by decide +kernel
  obtain ⟨direct, -, rules⟩ := typeCheck_memoryless wellFormed
  obtain ⟨squaresDirect, -, squaresRules⟩ := typeCheck_memoryless squaresWellFormed
  refine ⟨wellFormed, direct ▸ refused, fun typed => ?_, squaresWellFormed, squaresDirect ▸ accepted,
    squaresRules.mp accepted⟩
  rw [rules.mpr typed] at refused
  cases refused

end CpsGraph
