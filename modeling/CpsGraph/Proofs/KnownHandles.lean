import CpsGraph.Client.Program
import CpsGraph.Proofs.AllowedFaults
import CpsGraph.Proofs.CallGraphs
import CpsGraph.Proofs.DirectEvaluation
import CpsGraph.Proofs.RedirectedCalls
import CpsGraph.Proofs.SpecializationOutcomes
import CpsGraph.Proofs.SurvivingLabels

/-! # Known handles

Looking up a handle without a node is a fault of its own. In a well-formed program no traversal,
analysis, transformation or run comes across such a handle: they start from labels, whose handles have
nodes, and go from nodes to their children and to the nodes of labels. Whatever else a pass may fail
for, it does not fail for an unknown handle.
-/

namespace CpsGraph

open Results

/-! ## Unknown handles -/

/-- The handle that a fault says has no node. -/
def GraphError.unknown? : GraphError → Option Handle
  | .unknownHandle handle => some handle
  | _ => none

/-- The handle without a node for which an evaluation fails. -/
def EvalError.unknown? : EvalError → Option Handle
  | .graph cause => cause.unknown?
  | _ => none

/-- The handle without a node for which a program is ill typed. -/
def TypingError.unknown? : TypingError → Option Handle
  | .graph cause => cause.unknown?
  | _ => none

/-- The handle without a node for which an export fails. -/
def DotError.unknown? : DotError → Option Handle
  | .graph cause => cause.unknown?
  | .sinkFull => none

/-- The handle without a node for which a request fails. -/
def ClientError.unknown? : ClientError → Option Handle
  | .graph cause => cause.unknown?
  | .eval cause => cause.unknown?
  | .typing cause => cause.unknown?
  | .dot cause => cause.unknown?
  | _ => none

/-- Whether the evaluation of nodes that are there can fail so. A limit is set for runs only. -/
def EvalError.isRaised : EvalError → Bool
  | .graph cause => cause.unknown?.isNone
  | .stepLimitExceeded _ => false
  | _ => true

theorem EvalError.unknown?_of_isRaised {error : EvalError} (raised : error.isRaised = true) :
    error.unknown? = none := by
  cases error with
  | graph cause => exact Option.isNone_iff_eq_none.mp raised
  | _ => rfl

theorem GraphError.unknown?_of_isNodeFault {fault : GraphError} (isNodeFault : fault.isNodeFault = true) :
    fault.unknown? = none := by
  cases fault <;> first | rfl | cases isNodeFault

/-- A step does not fail for an unknown handle. -/
abbrev KnowsHandles {α : Type} (step : Except GraphError α) : Prop := FailsOnly (·.unknown? = none) step

theorem Table.knowsHandles_get {table : Table} {handle : Handle} (inRange : handle < table.size) :
    KnowsHandles (table.get handle) := by
  obtain ⟨node, present⟩ := Table.exists_get?_of_lt inRange
  rw [Table.get_eq_ok_iff.mpr present]
  exact .ok node

theorem Table.knowsHandles_register {table : Table} {body : Handle} (inRange : body < table.size)
    (name : Name) (signature : Signature) (external : Bool) :
    KnowsHandles (table.register name signature body external) := by
  refine (Table.knowsHandles_get inRange).bind fun node _ => ?_
  cases node.isBody with
  | true => exact .ok _
  | false => exact .error rfl

namespace Program

variable {program : Program} {name : Name} {index : Nat} {handle : Handle} {node : Node} {label : Label}

theorem knowsHandles_resolve (program : Program) (name : Name) : KnowsHandles (program.resolve name) :=
  .elim rfl

theorem knowsHandles_parameter (program : Program) (name : Name) (index : Nat) :
    KnowsHandles (program.parameter name index) := by
  refine (knowsHandles_resolve program name).bind fun label _ => ?_
  cases label.parameters[index]? with
  | none => exact .error rfl
  | some handle => exact .ok handle

/-! ## Traversals -/

/-- A search through a program that finds only handles with nodes, and that can look up what it needs
for the edges of those, does not fail for an unknown handle. -/
theorem knowsHandles_walk {strategy : Search.Strategy} {edges : Search.Edges}
    {frontier marked : List Handle} (start : ∀ handle ∈ frontier, handle < program.size)
    (finds : ∀ handle node, program.table.get? handle = some node → KnowsHandles (edges handle) ∧
      ∀ found, edges handle = .ok found → ∀ next ∈ found, next < program.size) {fault : GraphError}
    (faulty : (Search.walk strategy program.size edges frontier marked).fault = some fault) :
    fault.unknown? = none := by
  obtain ⟨handle, inRange, failure⟩ := Search.exists_of_fault start (fun handle found inRange success => by
    obtain ⟨node, present⟩ := Table.exists_get?_of_lt inRange
    exact (finds handle node present).2 found (Search.edgesBelow_eq_ok_iff.mp success).2) faulty
  obtain ⟨node, present⟩ := Table.exists_get?_of_lt inRange
  rw [Search.edgesBelow, if_pos inRange] at failure
  exact (finds handle node present).1 fault failure

section Traversing

variable (wellFormed : program.WellFormed)

include wellFormed

/-- All handles of a label have nodes. -/
theorem WellFormed.label_lt_size (member : label ∈ program.labels) :
    label.body < program.size ∧ label.node < program.size ∧
      ∀ parameter ∈ label.parameters, parameter < program.size := by
  have registered := wellFormed.labels label member
  obtain ⟨body, present, -⟩ := registered.body
  refine ⟨Table.lt_size_of_get? present, Table.lt_size_of_get? registered.node, ?_⟩
  intro parameter isParameter
  obtain ⟨index, atIndex⟩ := List.mem_iff_getElem?.mp isParameter
  exact Table.lt_size_of_get? (registered.get?_parameter atIndex)

theorem WellFormed.child_lt_size (present : program.table.get? handle = some node) :
    ∀ child ∈ node.children, child < program.size := fun _ isChild =>
  Nat.lt_trans (wellFormed.table.child_lt present isChild) (Table.lt_size_of_get? present)

theorem successors_known (present : program.table.get? handle = some node) :
    KnowsHandles (program.successors handle) ∧
      ∀ found, program.successors handle = .ok found → ∀ next ∈ found, next < program.size := by
  constructor
  · rw [successors, Table.get_eq_ok_iff.mpr present]
    cases node with
    | continuation name _ _ => exact (knowsHandles_resolve program name).bind fun _ _ => .ok _
    | abstraction target => exact (knowsHandles_resolve program target).bind fun _ _ => .ok _
    | parameter target index =>
      exact (knowsHandles_parameter program target index).bind fun _ _ => .ok _
    | branch arguments =>
      change KnowsHandles (if arguments.length = branchArity then _ else _)
      split_ifs
      · exact .ok _
      · exact .error rfl
    | call | primitive | quote | cast => exact .ok _
  · intro found success next isNext
    obtain ⟨_, presentAgain, leads⟩ := successors_eq_ok_iff.mp success
    rw [present] at presentAgain
    cases presentAgain
    have children := wellFormed.child_lt_size present
    cases leads with
    | continuation isLabel =>
      rcases List.mem_cons.mp isNext with rfl | isParameter
      · exact children _ List.mem_cons_self
      · exact (wellFormed.label_lt_size (mem_of_find? isLabel)).2.2 next isParameter
    | abstraction isLabel =>
      cases List.mem_singleton.mp isNext
      exact (wellFormed.label_lt_size (mem_of_find? isLabel)).2.1
    | parameter | quote => cases isNext
    | call | branch | primitive | cast => exact children next isNext

theorem knowsHandles_visitAll : KnowsHandles program.visitAll := by
  intro fault failure
  refine knowsHandles_walk (fun handle isNode => ?_)
    (fun handle node present => successors_known wellFormed present) (Walk.result_eq_error_iff.mp failure)
  obtain ⟨label, member, rfl⟩ := List.mem_map.mp isNode
  exact (wellFormed.label_lt_size member).2.1

theorem knowsHandles_validate : KnowsHandles program.validate := fun fault failure =>
  knowsHandles_visitAll wellFormed fault (validate_eq_error_iff.mp failure)

theorem knowsHandles_scope (name : Name) : KnowsHandles (program.scope name) := by
  intro fault failure
  rcases scope_eq_error wellFormed failure with invalid | ⟨-, -, rfl⟩
  · exact knowsHandles_validate wellFormed fault invalid
  · rfl

/-- A call graph can only be missing because the program is not valid. -/
theorem knowsHandles_callGraph : KnowsHandles program.callGraph := by
  intro fault failure
  cases validated : program.validate with
  | ok =>
    obtain ⟨graph, success⟩ :=
      exists_callGraph wellFormed ((validate_eq_ok_iff wellFormed).mp validated)
    rw [success] at failure
    cases failure
  | error other =>
    rw [callGraph_eq_direct, directCallGraph, uses, validate_eq_error_iff.mp validated] at failure
    cases failure
    exact knowsHandles_validate wellFormed _ validated

/-- The nodes that are drawn after a node are there. -/
theorem dotEdges_known (present : program.table.get? handle = some node) :
    KnowsHandles (program.dotEdges handle) ∧
      ∀ found, program.dotEdges handle = .ok found → ∀ next ∈ found, next < program.size := by
  have children := wellFormed.child_lt_size present
  have ofLabel {name : Name} {label : Label} (resolved : program.resolve name = .ok label) :=
    wellFormed.label_lt_size (mem_of_find? (resolve_eq_ok_iff.mp resolved))
  rw [dotEdges, Table.get_eq_ok_iff.mpr present]
  cases node with
  | continuation name _ body =>
    refine ⟨(knowsHandles_resolve program name).bind fun _ _ => .ok _, fun found success next isNext => ?_⟩
    change (program.resolve name >>= _) = _ at success
    obtain ⟨label, resolved, same⟩ := bind_eq_ok_iff.mp success
    cases same
    rcases List.mem_append.mp isNext with isParameter | isBody
    · exact (ofLabel resolved).2.2 next isParameter
    · exact children next isBody
  | abstraction target =>
    refine ⟨(knowsHandles_resolve program target).bind fun _ _ => .ok _,
      fun found success next isNext => ?_⟩
    change (program.resolve target >>= _) = _ at success
    obtain ⟨label, resolved, same⟩ := bind_eq_ok_iff.mp success
    cases same
    cases List.mem_singleton.mp isNext
    exact (ofLabel resolved).2.1
  | parameter target index =>
    refine ⟨(knowsHandles_parameter program target index).bind fun _ _ =>
      (knowsHandles_resolve program target).bind fun _ _ => .ok _, fun found success next isNext => ?_⟩
    change (program.parameter target index >>= _) = _ at success
    obtain ⟨_, -, success⟩ := bind_eq_ok_iff.mp success
    obtain ⟨label, resolved, same⟩ := bind_eq_ok_iff.mp success
    cases same
    cases List.mem_singleton.mp isNext
    exact (ofLabel resolved).2.1
  | call | branch | primitive | quote | cast =>
    refine ⟨.ok _, fun found success => ?_⟩
    cases success
    exact children

theorem toDot_known : FailsOnly (·.unknown? = none) program.toDot := by
  intro error failure
  unfold toDot at failure
  split at failure
  · next fault faulty =>
    cases failure
    refine knowsHandles_walk (fun handle isRoot => ?_)
      (fun handle node present => dotEdges_known wellFormed present) faulty
    obtain ⟨label, member, rfl⟩ := List.mem_map.mp isRoot
    refine (wellFormed.label_lt_size ?_).2.1
    split_ifs at member
    · exact member
    · exact (List.mem_filter.mp member).1
  · cases failure

end Traversing

/-! ## Evaluation -/

/-- An evaluation fails neither for an unknown handle nor at a limit on the number of steps. -/
abbrev Evaluates {α : Type} (step : Except EvalError α) : Prop := FailsOnly (·.isRaised = true) step

theorem evaluates_lift {α : Type} {step : Except GraphError α} (knows : KnowsHandles step) :
    Evaluates (liftM step) := knows.mapError fun _ known => Option.isNone_iff_eq_none.mpr known

theorem evaluates_asLiteral (value : Value) : Evaluates value.asLiteral := by
  cases value with
  | literal literal => exact .ok literal
  | closure => exact .error rfl

theorem evaluates_asClosure (value : Value) : Evaluates value.asClosure := by
  cases value with
  | literal literal => exact .error rfl
  | closure continuation env => exact .ok (continuation, env)

theorem evaluates_cast (literal : Literal) (ty : Ty) : Evaluates (literal.cast ty) := by
  unfold Literal.cast
  split
  · exact .ok _
  · exact .ok _
  · exact .error rfl

theorem evaluates_operator (op : Operator) (literals : List Literal) : Evaluates (op.evaluate literals) := by
  have int (literal : Literal) : Evaluates literal.asInt := .elim rfl
  have bool (literal : Literal) : Evaluates literal.asBool := .elim rfl
  have ints {α : Type} {next : Int64 → Int64 → Except EvalError α} (a b : Literal)
      (last : ∀ x y, Evaluates (next x y)) : Evaluates (a.asInt >>= fun x => b.asInt >>= next x) :=
    (int a).bind fun x _ => (int b).bind fun y _ => last x y
  have divides (x y : Int64) (result : Int64) : Evaluates
      (if y = 0 then throw .divisionByZero else return .int result : Except EvalError Literal) := by
    split_ifs
    · exact .error rfl
    · exact .ok _
  unfold Operator.evaluate
  split
  · exact ints _ _ fun _ _ => .ok _
  · exact ints _ _ fun _ _ => .ok _
  · exact ints _ _ fun _ _ => .ok _
  · exact ints _ _ fun x y => divides x y _
  · exact ints _ _ fun x y => divides x y _
  · refine (bool _).bind fun first _ => ?_
    cases first with
    | true => exact (bool _).bind fun _ _ => .ok _
    | false => exact .ok _
  · refine (bool _).bind fun first _ => ?_
    cases first with
    | true => exact .ok _
    | false => exact (bool _).bind fun _ _ => .ok _
  · exact (bool _).bind fun _ _ => .ok _
  · exact ints _ _ fun _ _ => .ok _
  · exact ints _ _ fun _ _ => .ok _
  · exact ints _ _ fun _ _ => .ok _
  · exact .error rfl

theorem evaluates_enter (program : Program) (continuation : Name) (env : Env) (arguments : List Value) :
    Evaluates (program.enter continuation env arguments) := by
  refine (evaluates_lift (knowsHandles_resolve program continuation)).bind fun label _ => ?_
  split_ifs
  · exact .ok _
  · exact .error rfl

theorem evaluates_closure (program : Program) (name : Name) : Evaluates (program.closure name) :=
  (evaluates_lift (knowsHandles_resolve program name)).bind fun _ _ => .ok _

theorem evaluates_start (program : Program) (entry : Name) (arguments : List Value) :
    Evaluates (program.start entry arguments) := by
  refine (evaluates_closure program entry).bind fun value _ => ?_
  refine (evaluates_asClosure value).bind fun (continuation, env) _ => ?_
  exact evaluates_enter program continuation env arguments

section Running

variable (wellFormed : program.WellFormed) (env : Env)

include wellFormed

/-- Evaluating a node only looks up nodes. -/
theorem evaluates_value (inRange : handle < program.size) : Evaluates (program.value env handle) := by
  induction handle using Nat.strongRecOn with
  | ind handle ih =>
    obtain ⟨node, present⟩ := Table.exists_get?_of_lt inRange
    rw [value_of_get? wellFormed.table present]
    have children (child : Handle) (isChild : child ∈ node.children) : Evaluates (program.value env child) :=
      ih child (wellFormed.table.child_lt present isChild) (wellFormed.child_lt_size present child isChild)
    cases node with
    | primitive op operands =>
      refine (FailsOnly.mapM fun operand isOperand => ?_).bind fun literals _ => ?_
      · exact (children operand isOperand).bind fun value _ => evaluates_asLiteral value
      · exact (evaluates_operator op literals).bind fun _ _ => .ok _
    | abstraction target =>
      exact (evaluates_lift (knowsHandles_resolve program target)).bind fun _ _ => .ok _
    | parameter target index =>
      refine (evaluates_lift (knowsHandles_parameter program target index)).bind fun _ _ => ?_
      cases (env.get? target).bind (·[index]?) with
      | none => exact .error rfl
      | some value => exact .ok value
    | quote literal => exact .ok _
    | cast source ty =>
      refine (children source List.mem_cons_self).bind fun value _ => ?_
      refine (evaluates_asLiteral value).bind fun literal _ => ?_
      exact (evaluates_cast literal ty).bind fun _ _ => .ok _
    | continuation | call | branch => exact .error rfl

theorem evaluates_jumpTo (name : Name) (inRange : ∀ child ∈ node.children, child < program.size) :
    Evaluates (program.jumpTo env name node) := by
  have value (child : Handle) (isChild : child ∈ node.children) :=
    evaluates_value wellFormed env (inRange child isChild)
  cases node with
  | call callee arguments =>
    refine (value callee List.mem_cons_self).bind fun found _ => ?_
    refine (evaluates_asClosure found).bind fun (continuation, captured) _ => ?_
    refine (FailsOnly.mapM fun argument isArgument => ?_).bind fun values _ => ?_
    · exact value argument (List.mem_cons_of_mem _ isArgument)
    · exact evaluates_enter program continuation captured values
  | branch arguments =>
    rcases arguments with _ | ⟨condition, _ | ⟨onTrue, _ | ⟨onFalse, _ | ⟨more, rest⟩⟩⟩⟩
    · exact .error rfl
    · exact .error rfl
    · exact .error rfl
    · refine (value condition List.mem_cons_self).bind fun found _ => ?_
      refine (evaluates_asLiteral found).bind fun literal _ => ?_
      refine FailsOnly.bind (.elim rfl) fun taken _ => ?_
      refine (value _ ?_).bind fun target _ => ?_
      · cases taken <;> simp [Node.children]
      · refine (evaluates_asClosure target).bind fun (continuation, captured) _ => ?_
        exact evaluates_enter program continuation captured []
    · exact .error rfl
  | continuation | primitive | abstraction | parameter | quote | cast => exact .error rfl

omit env in
theorem evaluates_step (config : Configuration) : Evaluates (program.step config) := by
  rw [step_eq_stepTo wellFormed.table]
  refine (evaluates_lift (knowsHandles_resolve program config.name)).bind fun label resolved => ?_
  have member := mem_of_find? (resolve_eq_ok_iff.mp (liftM_eq_ok_iff.mp resolved))
  refine (evaluates_lift (Table.knowsHandles_get (wellFormed.label_lt_size member).1)).bind
    fun body present => ?_
  have atBody := Table.get_eq_ok_iff.mp (liftM_eq_ok_iff.mp present)
  exact evaluates_jumpTo wellFormed config.env label.name (wellFormed.child_lt_size atBody)

omit env in
/-- A run only looks up nodes, however many steps it takes. -/
theorem evaluates_runFor (halts : List Name) (remaining steps : Nat) (config : Configuration) :
    FailsOnly (·.unknown? = none) (program.runFor halts remaining steps config) := by
  induction remaining generalizing steps config with
  | zero =>
    rw [runFor]
    split_ifs
    · exact .ok _
    · exact .error rfl
  | succ remaining ih =>
    rw [runFor]
    split_ifs
    · exact .ok _
    · have step := evaluates_step wellFormed config
      cases stepped : program.step config with
      | error error => exact .error (EvalError.unknown?_of_isRaised (step error stepped))
      | ok next => exact ih (steps + 1) next

omit env in
theorem evaluates_run {entry : Name} {arguments : List Value} {halts : List Name}
    {limit : Option UInt64} {outcome : Except EvalError Halt}
    (ran : program.run entry arguments halts limit = some outcome) :
    FailsOnly (·.unknown? = none) outcome := by
  have within (limit : Nat) :
      FailsOnly (·.unknown? = none) (program.runWithin entry arguments halts limit) := by
    refine FailsOnly.bind ?_ fun config _ => evaluates_runFor wellFormed halts limit 0 config
    intro error failure
    exact EvalError.unknown?_of_isRaised (evaluates_start program entry arguments error failure)
  rw [run_eq_observed] at ran
  rcases observed_cases limit (program.runWithin entry arguments halts (allowance limit)) with
    seen | ⟨hidden, -⟩
  · rw [seen] at ran
    cases ran
    exact within _
  · rw [hidden] at ran
    cases ran

end Running

/-! ## Type checking -/

/-- Type checking does not fail for an unknown handle, whatever types it remembers. -/
abbrev Checks {α : Type} (computation : TypingM α) : Prop :=
  Keeps (fun _ => True) (·.unknown? = none) computation

theorem checks_lift {α : Type} {step : Except GraphError α} (knows : KnowsHandles step) :
    Checks (liftM step) := by
  intro memory _
  refine ⟨?_, fun _ _ _ => trivial⟩
  cases step with
  | error fault => exact .error (knows fault rfl)
  | ok value => exact .ok (value, memory)

theorem checks_expectTy {infer : Handle → TypingM Ty} (infers : Checks (infer handle))
    (continuation : Name) (expected : Ty) : Checks (expectTy infer continuation expected handle) := by
  refine infers.bind fun actual => ?_
  split_ifs
  · exact .throw rfl
  · exact .pure ()

theorem knowsHandles_parameterTy (program : Program) (name : Name) (index : Nat) :
    KnowsHandles (program.parameterTy name index) := by
  refine (knowsHandles_parameter program name index).bind fun _ _ => ?_
  refine (knowsHandles_resolve program name).bind fun label _ => ?_
  cases label.signature[index]? with
  | none => exact .error rfl
  | some ty => exact .ok ty

theorem checks_inferNode {infer : Handle → TypingM Ty} (continuation : Name)
    (infers : ∀ child ∈ node.children, Checks (infer child)) :
    Checks (program.inferNode continuation infer node) := by
  cases node with
  | primitive op operands =>
    have checked : Checks (do
        operands.forM (expectTy infer continuation op.operandTy)
        return op.resultTy) := by
      refine (Keeps.forM fun operand isOperand => ?_).bind fun _ => .pure _
      exact checks_expectTy (infers operand isOperand) continuation op.operandTy
    by_cases arity : operands.length = op.arity
    · simpa only [inferNode, arity, ne_eq, not_true, if_false] using checked
    · simp only [inferNode, ne_eq, arity, not_false_eq_true, if_true]
      exact Keeps.bind (.throw rfl) fun _ => checked
  | abstraction target =>
    exact (checks_lift (knowsHandles_resolve program target)).bind fun _ => .pure _
  | parameter target index => exact checks_lift (knowsHandles_parameterTy program target index)
  | quote literal => exact .pure _
  | cast source ty =>
    refine (infers source List.mem_cons_self).bind fun actual => ?_
    split_ifs
    · exact .pure ty
    · exact .throw rfl
  | continuation | call | branch => exact .throw rfl

section Typing

variable (wellFormed : program.WellFormed) (continuation : Name)

include wellFormed

theorem checks_inferBelow {bound : Nat} (below : handle < bound) (inRange : handle < program.size) :
    Checks (program.inferBelow continuation bound handle) := by
  induction bound generalizing handle with
  | zero => exact absurd below (Nat.not_lt_zero handle)
  | succ bound ih =>
    obtain ⟨node, present⟩ := Table.exists_get?_of_lt inRange
    have infers : Checks (program.inferNode continuation (program.inferBelow continuation bound) node) := by
      refine checks_inferNode continuation fun child isChild => ?_
      have older := wellFormed.table.child_lt present isChild
      exact ih (Nat.lt_of_lt_of_le older (Nat.le_of_lt_succ below))
        (wellFormed.child_lt_size present child isChild)
    have stores (ty : Ty) : Checks (do modify ((handle, ty) :: ·); return ty) :=
      fun memory _ => ⟨.ok (ty, (handle, ty) :: memory), fun _ _ _ => trivial⟩
    intro memory _
    refine ⟨?_, fun _ _ _ => trivial⟩
    simp only [inferBelow, StateT.run_bind, StateT.run_get, pure_bind]
    cases memory.lookup handle with
    | some ty => exact .ok (ty, memory)
    | none =>
      rw [Table.get_eq_ok_iff.mpr present]
      exact (infers.bind stores memory trivial).1

theorem checks_typeOf (inRange : handle < program.size) : Checks (program.typeOf continuation handle) :=
  checks_inferBelow wellFormed continuation (Nat.lt_succ_self handle) inRange

theorem checks_checkBody (inRange : ∀ child ∈ node.children, child < program.size) :
    Checks (program.checkBody continuation node) := by
  have expects (expected : Ty) (child : Handle) (isChild : child ∈ node.children) :=
    checks_expectTy (checks_typeOf wellFormed continuation (inRange child isChild)) continuation expected
  cases node with
  | call callee arguments =>
    refine (checks_typeOf wellFormed continuation (inRange callee List.mem_cons_self)).bind fun actual => ?_
    cases actual with
    | fn params =>
      by_cases count : params.length = arguments.length
      · simp only [count, ne_eq, not_true, if_false]
        refine .forM fun pair isPair => expects pair.1 pair.2 ?_
        exact List.mem_cons_of_mem _ (List.of_mem_zip isPair).2
      · simp only [ne_eq, count, not_false_eq_true, if_true]
        exact Keeps.bind (.throw rfl) fun _ => .forM fun pair isPair =>
          expects pair.1 pair.2 (List.mem_cons_of_mem _ (List.of_mem_zip isPair).2)
    | int | bool => exact .throw rfl
  | branch arguments =>
    rcases arguments with _ | ⟨condition, _ | ⟨onTrue, _ | ⟨onFalse, _ | ⟨more, rest⟩⟩⟩⟩
    · exact .throw rfl
    · exact .throw rfl
    · exact .throw rfl
    · refine (expects .bool condition (by simp [Node.children])).bind fun _ => ?_
      refine (expects (.fn []) onTrue (by simp [Node.children])).bind fun _ => ?_
      exact expects (.fn []) onFalse (by simp [Node.children])
    · exact .throw rfl
  | continuation | primitive | abstraction | parameter | quote | cast => exact .throw rfl

omit continuation in
/-- Checking the types of a program only looks up nodes. -/
theorem typeCheck_known : FailsOnly (·.unknown? = none) program.typeCheck := by
  have checked : Checks (program.labels.forM program.checkLabel) := by
    refine .forM fun label member => ?_
    obtain ⟨body, present, -⟩ := (wellFormed.labels label member).body
    have atBody := checks_checkBody wellFormed label.name (wellFormed.child_lt_size present)
    intro memory _
    rw [checkLabel, Table.get_eq_ok_iff.mpr present]
    exact atBody memory trivial
  exact .ofSuccess ((checked [] trivial).1.bind fun _ _ => .ok _)

end Typing

/-! ## Transformations -/

theorem knowsHandles_redefine (inRange : handle < program.size) (name : Name) :
    KnowsHandles (program.redefine name handle) := by
  refine (knowsHandles_resolve program name).bind fun old _ => ?_
  exact (Table.knowsHandles_register inRange _ _ _).bind fun _ _ => .ok _

/-- Giving a label the image of its body only looks up nodes. -/
theorem keeps_redefineFrom {substitution : Substitution} {base : Table} (wellFormed : base.WellFormed)
    (targets : ∀ handle image, substitution.lookup handle = some image → image < base.size)
    (inRange : label.body < base.size) :
    Keeps (Substitution.Sound substitution base) (·.unknown? = none)
      (substitution.redefineFrom label) := by
  intro state sound
  refine ⟨?_, fun changed later ran => (sound.redefineFrom_run targets wellFormed inRange ran).1⟩
  obtain ⟨image, middle, ran, soundMiddle, -, -, maps⟩ :=
    Substitution.succeeds_apply targets wellFormed inRange state sound trivial
  rw [Substitution.redefineFrom, StateT.run_bind, ran]
  change KnowsHandles ((if image = label.body then _ else _ : Substitution.RebuildM Bool).run middle)
  split_ifs
  · exact .ok _
  · change KnowsHandles ((middle.program.redefine label.name image >>= fun grown => pure (grown, middle)) >>= _)
    refine FailsOnly.bind ?_ fun _ _ => .ok _
    exact (knowsHandles_redefine (soundMiddle.lt_size targets maps) label.name).bind fun _ _ => .ok _

theorem knowsHandles_redirectCalls (wellFormed : program.WellFormed) (old new : Name)
    (mapping : List Nat) : KnowsHandles (program.redirectCalls old new mapping) := by
  refine .ofSuccess ?_
  refine (knowsHandles_resolve program old).bind fun old _ => ?_
  refine (knowsHandles_resolve program new).bind fun new resolved => ?_
  cases mapping.find? (old.arity ≤ ·) with
  | some index => exact .error rfl
  | none =>
    refine (knowsHandles_visitAll wellFormed).bind fun order _ => ?_
    refine FailsOnly.bind (.mapM fun site _ => ?_) fun calls collected => ?_
    · refine FailsOnly.bind (.mapM fun index _ => ?_) fun _ _ => .ok _
      cases site.2[index]? with
      | none => exact .error rfl
      | some argument => exact .ok argument
    · obtain ⟨closed, sound, targets, inRange⟩ :=
        wellFormed.redirection (mem_of_find? (resolve_eq_ok_iff.mp resolved)) collected
      refine FailsOnly.bind ?_ fun _ _ => .ok _
      refine (Keeps.mapM fun label member => ?_) _ sound |>.1
      exact keeps_redefineFrom closed targets (inRange label member)

/-- Specializing a label only looks up nodes if the replacements that count are nodes. -/
theorem knowsHandles_specialize (wellFormed : program.WellFormed) {substitution : Substitution}
    (targets : ∀ handle image, substitution.lookup handle = some image → image < program.size)
    (entry newName : Name) (signature : Signature) :
    KnowsHandles (program.specialize entry newName signature substitution) := by
  intro fault failure
  rcases specialize_cases_of_targets wellFormed targets entry newName signature with
    ⟨_, _, -, success, -⟩ | ⟨other, failed, cause⟩
  · rw [success] at failure
    cases failure
  · rw [failed] at failure
    cases failure
    rcases cause with invalid | ⟨-, ⟨-, rfl⟩ | ⟨-, -, rfl⟩ | ⟨-, -, _, _, rfl⟩⟩
    · exact knowsHandles_validate wellFormed _ invalid
    · rfl
    · rfl
    · rfl

/-- Simplifying a program only looks up nodes. -/
theorem knowsHandles_simplify (wellFormed : program.WellFormed) : KnowsHandles program.simplify := by
  intro fault failure
  cases simplified : program.simplifyStats with
  | ok result =>
    rw [simplify, simplified] at failure
    cases failure
  | error other =>
    rw [simplify, simplified] at failure
    cases failure
    obtain ⟨later, ran⟩ := simplifyStats_eq_error simplified
    have ends := Simplify.ends_importProgram_of_bodies fun label member =>
      (wellFormed.labels label member).body
    rw [ran] at ends
    rcases ends with isNodeFault | ⟨_, -, malformed⟩
    · exact GraphError.unknown?_of_isNodeFault isNodeFault
    · exact absurd wellFormed.table malformed

end Program

end CpsGraph
