import CpsGraph.Proofs.Remembering
import CpsGraph.Proofs.WellFormed
import CpsGraph.Run

/-! # Evaluation without a memory

The direct value of a node is computed from its parts, as often as they occur. The evaluator
remembers values within a step, and this file shows that its memory cannot be observed: on a well-formed
table, evaluating a node and executing a step give the direct results, with the same errors.
-/

namespace CpsGraph

namespace Program

/-- The value of a node, given the values of its children. -/
def valueNode (program : Program) (env : Env) (value : Handle → Except EvalError Value) :
    Node → Except EvalError Value
  | .primitive op operands => do
    let literals ← operands.mapM fun operand => do (← value operand).asLiteral
    return .literal (← op.evaluate literals)
  | .abstraction target => do
    let label ← program.resolve target
    return .closure label.name env
  | .parameter target index => program.parameterValue env target index
  | .quote literal => return .literal literal
  | .cast source ty => do
    let literal ← (← value source).asLiteral
    return .literal (← literal.cast ty)
  | node => throw (.graph (.notAnExpression node.kind))

/-- The direct value of the node at a handle below `bound`. -/
def valueBelow (program : Program) (env : Env) : (bound : Nat) → Handle → Except EvalError Value
  | 0, handle => throw (.graph (.unknownHandle handle))
  | bound + 1, handle => do
    let node ← program.table.get handle
    program.valueNode env (program.valueBelow env bound) node

/-- The direct value of a node. -/
def value (program : Program) (env : Env) (handle : Handle) : Except EvalError Value :=
  program.valueBelow env (handle + 1) handle

/-- What a body jumps to, given how its parts are evaluated. -/
def jumpBy (program : Program) (value : Handle → Except EvalError Value) (name : Name) :
    Node → Except EvalError Configuration
  | .call callee arguments => do
    let (continuation, captured) ← (← value callee).asClosure
    let values ← arguments.mapM value
    program.enter continuation captured values
  | .branch [condition, onTrue, onFalse] => do
    let literal ← (← value condition).asLiteral
    let target ← value (if ← literal.asBool then onTrue else onFalse)
    let (continuation, captured) ← target.asClosure
    program.enter continuation captured []
  | .branch arguments => throw (.graph (.malformedBranch arguments.length))
  | node => throw (.graph (.notABody name node.kind))

/-- What a body jumps to, by direct values. -/
def jumpTo (program : Program) (env : Env) : Name → Node → Except EvalError Configuration :=
  program.jumpBy (program.value env)

/-- Execute the body of a label by direct values. -/
def stepTo (program : Program) (config : Configuration) : Except EvalError Configuration := do
  let label ← program.resolve config.name
  let body ← program.table.get label.body
  program.jumpTo config.env label.name body

variable {program : Program} {env : Env} {handle : Handle} {node : Node}

theorem valueNode_congr {first second : Handle → Except EvalError Value}
    (same : ∀ child ∈ node.children, first child = second child) :
    program.valueNode env first node = program.valueNode env second node := by
  cases node with
  | primitive op operands =>
    have literals : (operands.mapM fun operand => first operand >>= Value.asLiteral) =
        operands.mapM fun operand => second operand >>= Value.asLiteral :=
      Results.mapM_congr fun operand member => by rw [same operand member]
    simp only [valueNode, literals]
  | cast source ty => simp only [valueNode, same source (List.mem_singleton_self source)]
  | _ => rfl

/-- On a well-formed table every bound above a handle gives the same direct value. -/
theorem valueBelow_eq_value (wellFormed : program.table.WellFormed) {bound : Nat}
    (inRange : handle < bound) : program.valueBelow env bound handle = program.value env handle := by
  induction handle using Nat.strongRecOn generalizing bound with
  | ind handle ih =>
    obtain ⟨bound, rfl⟩ := Nat.exists_eq_succ_of_ne_zero (Nat.ne_zero_of_lt inRange)
    rw [value, valueBelow, valueBelow]
    cases present : program.table.get? handle with
    | none => rw [Table.get, present]; rfl
    | some node =>
      rw [Table.get_eq_ok_iff.mpr present]
      refine valueNode_congr fun child part => ?_
      have older := wellFormed.child_lt present part
      rw [ih child older older,
        ih child older (Nat.lt_of_lt_of_le older (Nat.le_of_lt_succ inRange))]

/-- The direct value of a node is made of the direct values of its parts. -/
theorem value_eq (wellFormed : program.table.WellFormed) :
    program.value env handle = (do
      let node ← program.table.get handle
      program.valueNode env (program.value env) node) := by
  rw [value, valueBelow]
  cases present : program.table.get? handle with
  | none => rw [Table.get, present]; rfl
  | some node =>
    rw [Table.get_eq_ok_iff.mpr present]
    exact valueNode_congr fun child part =>
      valueBelow_eq_value wellFormed (wellFormed.child_lt present part)

theorem value_of_get? (wellFormed : program.table.WellFormed)
    (present : program.table.get? handle = some node) :
    program.value env handle = program.valueNode env (program.value env) node := by
  rw [value_eq wellFormed, Table.get_eq_ok_iff.mpr present]
  rfl

theorem liftM_eq_ok_iff {α : Type} {step : Except GraphError α} {result : α} :
    (liftM step : Except EvalError α) = .ok result ↔ step = .ok result :=
  Results.mapError_eq_ok_iff

/-- A structural step of the evaluator does not use its memory. -/
theorem follows_graph {α : Type} {Sound : List (Handle × Value) → Prop} (step : Except GraphError α) :
    Follows Sound (liftM step : EvalM α) (liftM step : Except EvalError α) := by
  intro memory sound
  cases step with
  | error fault => rfl
  | ok result => exact ⟨memory, sound, rfl⟩

/-- Evaluating a node follows its direct value if evaluating its children does. -/
theorem follows_evalNode {Sound : List (Handle × Value) → Prop} {eval : Handle → EvalM Value}
    {value : Handle → Except EvalError Value}
    (children : ∀ child ∈ node.children, Follows Sound (eval child) (value child)) :
    Follows Sound (program.evalNode env eval node) (program.valueNode env value node) := by
  cases node with
  | primitive op operands =>
    refine (Follows.mapM fun operand member => ?_).bind fun literals _ => ?_
    · exact (children operand member).bind fun found _ => .lift found.asLiteral
    · exact (Follows.lift (op.evaluate literals)).bind fun literal _ => .pure (Value.literal literal)
  | abstraction target =>
    exact (follows_graph (program.resolve target)).bind fun label _ => .pure _
  | parameter target index => exact .lift _
  | quote literal => exact .pure _
  | cast source ty =>
    refine (children source (List.mem_singleton_self source)).bind fun found _ => ?_
    refine (Follows.lift found.asLiteral).bind fun literal _ => ?_
    exact (Follows.lift (literal.cast ty)).bind fun result _ => .pure (Value.literal result)
  | _ => exact .throw _

/-- Evaluating the node at a handle follows its direct value if evaluating older ones does. -/
theorem follows_search (wellFormed : program.table.WellFormed) {Sound : List (Handle × Value) → Prop}
    {eval : Handle → EvalM Value}
    (children : ∀ child < handle, Follows Sound (eval child) (program.value env child)) :
    Follows Sound (do program.evalNode env eval (← program.table.get handle) : EvalM Value)
      (program.value env handle) := by
  rw [value_eq wellFormed]
  refine (follows_graph (program.table.get handle)).bind fun node found => ?_
  have present := Table.get_eq_ok_iff.mp (liftM_eq_ok_iff.mp found)
  exact follows_evalNode fun child part => children child (wellFormed.child_lt present part)

/-- The evaluator gives direct values, whatever right values it remembers. -/
theorem follows_evalBelow (wellFormed : program.table.WellFormed) {bound : Nat}
    (inRange : handle < bound) :
    Follows (Remembers (program.value env)) (program.evalBelow env bound handle)
      (program.value env handle) := by
  induction bound generalizing handle with
  | zero => exact absurd inRange (Nat.not_lt_zero handle)
  | succ bound ih =>
    refine Remembers.follows_recall (fun memory => ?_) <|
      Remembers.follows_store <| follows_search wellFormed fun child older =>
        ih (Nat.lt_of_lt_of_le older (Nat.le_of_lt_succ inRange))
    simp only [evalBelow, bind_assoc, StateT.run_bind, StateT.run_get, pure_bind]
    cases memory.lookup handle <;> rfl

/-- Evaluating a node gives its direct value. -/
theorem follows_eval (wellFormed : program.table.WellFormed) (env : Env) (handle : Handle) :
    Follows (Remembers (program.value env)) (program.eval env handle) (program.value env handle) :=
  follows_evalBelow wellFormed (Nat.lt_succ_self handle)

theorem evaluate_eq_value (wellFormed : program.table.WellFormed) :
    program.evaluate env handle = program.value env handle :=
  (follows_eval wellFormed env handle).run_eq .nil

/-- The memory that a step shares between all that it evaluates cannot be observed. -/
theorem follows_jump (wellFormed : program.table.WellFormed) (name : Name) :
    Follows (Remembers (program.value env)) (program.jump env name node)
      (program.jumpTo env name node) := by
  have eval := follows_eval wellFormed env
  cases node with
  | call callee arguments =>
    refine (eval callee).bind fun found _ => ?_
    refine (Follows.lift found.asClosure).bind fun (continuation, captured) _ => ?_
    refine (Follows.mapM fun argument _ => eval argument).bind fun values _ => ?_
    exact .lift _
  | branch arguments =>
    rcases arguments with _ | ⟨condition, _ | ⟨onTrue, _ | ⟨onFalse, _ | ⟨more, rest⟩⟩⟩⟩
    · exact .throw _
    · exact .throw _
    · exact .throw _
    · refine (eval condition).bind fun found _ => ?_
      refine (Follows.lift found.asLiteral).bind fun literal _ => ?_
      refine (Follows.lift literal.asBool).bind fun taken _ => ?_
      refine (eval _).bind fun target _ => ?_
      refine (Follows.lift target.asClosure).bind fun (continuation, captured) _ => ?_
      exact .lift _
    · exact .throw _
  | _ => exact .throw _

/-- A step does what the direct values of its body say. -/
theorem step_eq_stepTo (wellFormed : program.table.WellFormed) (config : Configuration) :
    program.step config = program.stepTo config := by
  unfold step stepTo
  refine bind_congr fun label => bind_congr fun body => ?_
  exact (follows_jump wellFormed label.name).run_eq .nil

/-- A step of a label jumps where its body says. -/
theorem step_eq_jumpTo (wellFormed : program.table.WellFormed) {config : Configuration} {label : Label}
    (found : program.find? config.name = some label)
    (present : program.table.get? label.body = some node) :
    program.step config = program.jumpTo config.env label.name node := by
  rw [step_eq_stepTo wellFormed, stepTo, resolve_eq_ok_iff.mpr found]
  change ((liftM (program.table.get label.body) : Except EvalError Node) >>= fun body => _) = _
  rw [Table.get_eq_ok_iff.mpr present]
  rfl

/-! ## When a step succeeds -/

theorem asLiteral_eq_ok_iff {value : Value} {literal : Literal} :
    value.asLiteral = .ok literal ↔ value = .literal literal := by
  cases value <;> simp [Value.asLiteral]

theorem asClosure_eq_ok_iff {value : Value} {continuation : Name} {captured : Env} :
    value.asClosure = .ok (continuation, captured) ↔ value = .closure continuation captured := by
  cases value <;> simp [Value.asClosure]

theorem asBool_eq_ok_iff {literal : Literal} {value : Bool} :
    literal.asBool = .ok value ↔ literal = .bool value := by
  cases literal <;> simp [Literal.asBool, Literal.bool?]

theorem asInt_eq_ok_iff {literal : Literal} {value : Int64} :
    literal.asInt = .ok value ↔ literal = .int value := by
  cases literal <;> simp [Literal.asInt, Literal.int?]

/-- A parameter has a value if its label has it and the environment binds it. -/
theorem parameterValue_eq_ok_iff {name : Name} {index : Nat} {value : Value} :
    program.parameterValue env name index = .ok value ↔
      ∃ handle arguments, program.parameter name index = .ok handle ∧
        env.get? name = some arguments ∧ arguments[index]? = some value := by
  unfold parameterValue
  simp only [Results.bind_eq_ok_iff, liftM_eq_ok_iff]
  cases found : (env.get? name).bind (·[index]?) with
  | none =>
    constructor
    · rintro ⟨handle, known, success⟩
      cases success
    · rintro ⟨handle, arguments, known, atName, atIndex⟩
      rw [atName, Option.bind_some, atIndex] at found
      cases found
  | some stored =>
    obtain ⟨bound, atName, atIndex⟩ := Option.bind_eq_some_iff.mp found
    constructor
    · rintro ⟨handle, known, success⟩
      cases success
      exact ⟨handle, bound, known, atName, atIndex⟩
    · rintro ⟨handle, arguments, known, atName', atIndex'⟩
      rw [atName', Option.bind_some, atIndex'] at found
      cases found
      exact ⟨handle, known, rfl⟩

/-- A closure is entered if its continuation is a label with as many parameters as arguments. -/
theorem enter_eq_ok_iff {continuation : Name} {arguments : List Value} {next : Configuration} :
    program.enter continuation env arguments = .ok next ↔
      ∃ label, program.find? continuation = some label ∧ arguments.length = label.arity ∧
        next = ⟨continuation, env.set continuation arguments⟩ := by
  unfold enter
  simp only [Results.bind_eq_ok_iff, liftM_eq_ok_iff, resolve_eq_ok_iff]
  refine exists_congr fun label => and_congr_right fun found => ?_
  rw [name_of_find? found]
  split_ifs with fits
  · simp [fits, pure, Except.pure, eq_comm]
  · simp [fits]

theorem enter_eq_error {continuation : Name} {arguments : List Value} {label : Label}
    (found : program.find? continuation = some label) (differs : arguments.length ≠ label.arity) :
    program.enter continuation env arguments =
      .error (.argumentCount continuation label.arity arguments.length) := by
  unfold enter
  rw [resolve_eq_ok_iff.mpr found]
  change (if arguments.length = label.arity then _ else _) = _
  rw [if_neg differs, name_of_find? found]
  rfl

/-- A run begins by entering its label in the empty environment. -/
theorem start_eq_enter (entry : Name) (arguments : List Value) :
    program.start entry arguments = program.enter entry [] arguments := by
  unfold start closure enter resolve
  cases found : program.find? entry with
  | none => rfl
  | some label =>
    have named := name_of_find? found
    change program.enter label.name [] arguments = _
    unfold enter resolve
    rw [named, found]

/-- With as many arguments as its label has parameters, a run begins at the label. -/
theorem runWithin_eq_runFor {entry : Name} {label : Label} {arguments : List Value}
    (found : program.find? entry = some label) (fits : arguments.length = label.arity)
    (halts : List Name) (limit : Nat) : program.runWithin entry arguments halts limit =
      program.runFor halts limit 0 ⟨entry, Env.set [] entry arguments⟩ := by
  rw [runWithin, start_eq_enter, enter_eq_ok_iff.mpr ⟨label, found, fits, rfl⟩]
  rfl

section Values

variable (wellFormed : program.table.WellFormed) {value : Value}

include wellFormed

theorem value_quote {literal : Literal} (present : program.table.get? handle = some (.quote literal)) :
    program.value env handle = .ok (.literal literal) := by
  rw [value_of_get? wellFormed present]
  rfl

/-- An operator has a value if its operands are literals on which it can be evaluated. -/
theorem value_primitive_iff {op : Operator} {operands : List Handle}
    (present : program.table.get? handle = some (.primitive op operands)) :
    program.value env handle = .ok value ↔ ∃ literals result,
      List.Forall₂ (fun operand literal => program.value env operand = .ok (.literal literal))
        operands literals ∧ op.evaluate literals = .ok result ∧ value = .literal result := by
  rw [value_of_get? wellFormed present]
  simp only [valueNode, Results.bind_eq_ok_iff, Results.mapM_eq_ok_iff, asLiteral_eq_ok_iff,
    exists_eq_right]
  constructor
  · rintro ⟨literals, atOperands, result, evaluated, same⟩
    cases same
    exact ⟨literals, result, atOperands, evaluated, rfl⟩
  · rintro ⟨literals, result, atOperands, evaluated, rfl⟩
    exact ⟨literals, atOperands, result, evaluated, rfl⟩

theorem value_abstraction_iff {target : Name}
    (present : program.table.get? handle = some (.abstraction target)) :
    program.value env handle = .ok value ↔
      target ∈ program.names ∧ value = .closure target env := by
  rw [value_of_get? wellFormed present, mem_names_iff]
  simp only [valueNode, Results.bind_eq_ok_iff, liftM_eq_ok_iff, resolve_eq_ok_iff]
  constructor
  · rintro ⟨label, found, same⟩
    cases same
    exact ⟨⟨label, found⟩, by rw [name_of_find? found]⟩
  · rintro ⟨⟨label, found⟩, rfl⟩
    exact ⟨label, found, by rw [name_of_find? found]; rfl⟩

theorem value_parameter {target : Name} {index : Nat}
    (present : program.table.get? handle = some (.parameter target index)) :
    program.value env handle = program.parameterValue env target index :=
  value_of_get? wellFormed present

theorem value_cast_iff {source : Handle} {ty : Ty}
    (present : program.table.get? handle = some (.cast source ty)) :
    program.value env handle = .ok value ↔ ∃ literal result,
      program.value env source = .ok (.literal literal) ∧ literal.cast ty = .ok result ∧
        value = .literal result := by
  rw [value_of_get? wellFormed present]
  simp only [valueNode, Results.bind_eq_ok_iff, asLiteral_eq_ok_iff]
  constructor
  · rintro ⟨_, atSource, literal, rfl, result, cast, same⟩
    cases same
    exact ⟨literal, result, atSource, cast, rfl⟩
  · rintro ⟨literal, result, atSource, cast, rfl⟩
    exact ⟨_, atSource, literal, rfl, result, cast, rfl⟩

/-- Bodies and continuations have no value. -/
theorem isExpression_of_value (present : program.table.get? handle = some node)
    (success : program.value env handle = .ok value) : node.isExpression = true := by
  rw [value_of_get? wellFormed present] at success
  cases node with
  | continuation => cases success
  | call => cases success
  | branch => cases success
  | _ => rfl

end Values

/-- How a body jumps: by calling a closure with arguments, or by taking one target of a branch. -/
inductive Jumps (program : Program) (env : Env) : Node → Configuration → Prop
  | call {callee : Handle} {arguments : List Handle} {continuation : Name} {captured : Env}
      {values : List Value} {next : Configuration}
      (atCallee : program.value env callee = .ok (.closure continuation captured))
      (atArguments : List.Forall₂ (fun argument value => program.value env argument = .ok value)
        arguments values)
      (entered : program.enter continuation captured values = .ok next) :
      Jumps program env (.call callee arguments) next
  | branch {condition onTrue onFalse : Handle} {taken : Bool} {continuation : Name} {captured : Env}
      {next : Configuration}
      (atCondition : program.value env condition = .ok (.literal (.bool taken)))
      (atTarget : program.value env (if taken then onTrue else onFalse) =
        .ok (.closure continuation captured))
      (entered : program.enter continuation captured [] = .ok next) :
      Jumps program env (.branch [condition, onTrue, onFalse]) next

theorem jumpTo_eq_ok_iff {name : Name} {next : Configuration} :
    program.jumpTo env name node = .ok next ↔ program.Jumps env node next := by
  constructor
  · intro success
    cases node with
    | call callee arguments =>
      obtain ⟨found, atCallee, success⟩ := Results.bind_eq_ok_iff.mp success
      obtain ⟨⟨continuation, captured⟩, isClosure, success⟩ := Results.bind_eq_ok_iff.mp success
      obtain ⟨values, atArguments, entered⟩ := Results.bind_eq_ok_iff.mp success
      rw [asClosure_eq_ok_iff.mp isClosure] at atCallee
      exact .call atCallee (Results.mapM_eq_ok_iff.mp atArguments) entered
    | branch arguments =>
      rcases arguments with _ | ⟨condition, _ | ⟨onTrue, _ | ⟨onFalse, _ | ⟨more, rest⟩⟩⟩⟩
      · cases success
      · cases success
      · cases success
      · obtain ⟨found, atCondition, success⟩ := Results.bind_eq_ok_iff.mp success
        obtain ⟨literal, isLiteral, success⟩ := Results.bind_eq_ok_iff.mp success
        obtain ⟨taken, isBool, success⟩ := Results.bind_eq_ok_iff.mp success
        obtain ⟨target, atTarget, success⟩ := Results.bind_eq_ok_iff.mp success
        obtain ⟨⟨continuation, captured⟩, isClosure, entered⟩ := Results.bind_eq_ok_iff.mp success
        rw [asLiteral_eq_ok_iff.mp isLiteral, asBool_eq_ok_iff.mp isBool] at atCondition
        rw [asClosure_eq_ok_iff.mp isClosure] at atTarget
        exact .branch atCondition atTarget entered
      · cases success
    | _ => cases success
  · intro jumps
    cases jumps with
    | call atCallee atArguments entered =>
      simp only [jumpTo, jumpBy, atCallee, Results.mapM_eq_ok_iff.mpr atArguments]
      exact entered
    | branch atCondition atTarget entered =>
      simp only [jumpTo, jumpBy, atCondition]
      change (program.value env _ >>= fun target => target.asClosure >>= fun (continuation, captured) =>
        program.enter continuation captured []) = _
      rw [atTarget]
      exact entered

/-- A step succeeds if the body of its label jumps. -/
theorem step_eq_ok_iff (wellFormed : program.table.WellFormed) {config next : Configuration} :
    program.step config = .ok next ↔ ∃ label body, program.find? config.name = some label ∧
      program.table.get? label.body = some body ∧ program.Jumps config.env body next := by
  rw [step_eq_stepTo wellFormed, stepTo]
  simp only [Results.bind_eq_ok_iff, liftM_eq_ok_iff, resolve_eq_ok_iff, Table.get_eq_ok_iff,
    jumpTo_eq_ok_iff]
  exact ⟨fun ⟨label, found, body, present, jumps⟩ => ⟨label, body, found, present, jumps⟩,
    fun ⟨label, body, found, present, jumps⟩ => ⟨label, found, body, present, jumps⟩⟩

end Program

end CpsGraph
