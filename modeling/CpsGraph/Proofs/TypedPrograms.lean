import CpsGraph.Proofs.WellFormed
import CpsGraph.Typing

/-! # What type checking establishes

The typing rules, stated without the checker's memory and without the errors that it reports: an
expression has a type, and a body is well typed. Whatever the checker accepts follows the rules. The
types that it remembers are right for every label, although each was inferred for one of them.
-/

namespace CpsGraph

/-- From every sound memory, a result of the computation satisfies the condition and the memory that
is left is sound. -/
def Ensures {σ ε α : Type} (Sound : σ → Prop) (computation : StateT σ (Except ε) α)
    (Post : α → Prop) : Prop :=
  ∀ memory result later, Sound memory → computation.run memory = .ok (result, later) →
    Post result ∧ Sound later

namespace Ensures

variable {σ ε α β : Type} {Sound : σ → Prop} {Post : α → Prop}

theorem pure {value : α} (holds : Post value) :
    Ensures Sound (Pure.pure value : StateT σ (Except ε) α) Post := by
  intro memory result later sound ran
  cases ran
  exact ⟨holds, sound⟩

theorem throw (error : ε) :
    Ensures Sound (MonadExcept.throw error : StateT σ (Except ε) α) Post := by
  intro memory result later sound ran
  cases ran

theorem bind {first : StateT σ (Except ε) α} {second : α → StateT σ (Except ε) β} {Last : β → Prop}
    (ensures : Ensures Sound first Post)
    (next : ∀ value, Post value → Ensures Sound (second value) Last) :
    Ensures Sound (first >>= second) Last := by
  intro memory result later sound ran
  rw [StateT.run_bind] at ran
  obtain ⟨⟨value, middle⟩, ranFirst, ranSecond⟩ := Results.bind_eq_ok_iff.mp ran
  obtain ⟨holds, sound⟩ := ensures memory value middle sound ranFirst
  exact next value holds middle result later sound ranSecond

theorem imp {computation : StateT σ (Except ε) α} {Last : α → Prop}
    (ensures : Ensures Sound computation Post) (weaker : ∀ value, Post value → Last value) :
    Ensures Sound computation Last := by
  intro memory result later sound ran
  obtain ⟨holds, sound⟩ := ensures memory result later sound ran
  exact ⟨weaker result holds, sound⟩

/-- Checking the elements of a list ensures what checking each of them does. -/
theorem forM {act : α → StateT σ (Except ε) Unit} {elements : List α}
    (each : ∀ element ∈ elements, Ensures Sound (act element) fun _ => Post element) :
    Ensures Sound (elements.forM act) fun _ => ∀ element ∈ elements, Post element := by
  induction elements with
  | nil => exact .pure nofun
  | cons element elements ih =>
    change Ensures Sound (act element >>= fun _ => elements.forM act) _
    refine (each element List.mem_cons_self).bind fun _ first => ?_
    refine (ih fun other member => each other (List.mem_cons_of_mem _ member)).imp fun _ rest => ?_
    exact List.forall_mem_cons.mpr ⟨first, rest⟩

end Ensures

namespace Program

/-- The type of an expression. -/
inductive HasTy (program : Program) : Handle → Ty → Prop
  | primitive {handle : Handle} {op : Operator} {operands : List Handle}
      (present : program.table.get? handle = some (.primitive op operands))
      (arity : operands.length = op.arity)
      (operandTy : ∀ operand ∈ operands, HasTy program operand op.operandTy) :
      HasTy program handle op.resultTy
  | abstraction {handle : Handle} {target : Name} {label : Label}
      (present : program.table.get? handle = some (.abstraction target))
      (found : program.find? target = some label) : HasTy program handle (.fn label.signature)
  | parameter {handle : Handle} {target : Name} {index : Nat} {label : Label} {ty : Ty}
      (present : program.table.get? handle = some (.parameter target index))
      (found : program.find? target = some label) (atIndex : label.signature[index]? = some ty) :
      HasTy program handle ty
  | quote {handle : Handle} {literal : Literal}
      (present : program.table.get? handle = some (.quote literal)) : HasTy program handle literal.ty
  | cast {handle source : Handle} {actual ty : Ty}
      (present : program.table.get? handle = some (.cast source ty))
      (sourceTy : HasTy program source actual) (castable : actual.castable ty = true) :
      HasTy program handle ty

/-- A body is well typed: a call has one argument for each parameter of its callee, and a branch a
boolean condition and two targets without parameters. -/
inductive BodyTyped (program : Program) : Node → Prop
  | call {callee : Handle} {arguments : List Handle} {params : Signature}
      (calleeTy : program.HasTy callee (.fn params))
      (argumentTy : List.Forall₂ program.HasTy arguments params) :
      BodyTyped program (.call callee arguments)
  | branch {condition onTrue onFalse : Handle} (conditionTy : program.HasTy condition .bool)
      (trueTy : program.HasTy onTrue (.fn [])) (falseTy : program.HasTy onFalse (.fn [])) :
      BodyTyped program (.branch [condition, onTrue, onFalse])

/-- The bodies of all labels are well typed. -/
def Typed (program : Program) : Prop :=
  ∀ label ∈ program.labels, ∃ body, program.table.get? label.body = some body ∧
    program.BodyTyped body

/-- Only right types are remembered. -/
def RightTypes (program : Program) (known : KnownTypes) : Prop :=
  ∀ handle ty, known.lookup handle = some ty → program.HasTy handle ty

variable {program : Program} {continuation : Name} {infer : Handle → TypingM Ty} {handle : Handle}

/-- A structural step of the checker does not use its memory. -/
theorem ensures_graph {α : Type} {Sound : KnownTypes → Prop} {step : Except GraphError α}
    {Post : α → Prop} (holds : ∀ result, step = .ok result → Post result) :
    Ensures Sound (liftM step : TypingM α) Post := by
  intro memory result later sound ran
  cases step with
  | error fault => cases ran
  | ok value =>
    cases ran
    exact ⟨holds _ rfl, sound⟩

theorem ensures_expectTy (continuation : Name) (expected : Ty)
    (infers : Ensures program.RightTypes (infer handle) (program.HasTy handle)) :
    Ensures program.RightTypes (expectTy infer continuation expected handle)
      fun _ => program.HasTy handle expected := by
  refine infers.bind fun actual hasTy => ?_
  by_cases same : actual = expected
  · subst same
    simp only [ne_eq, not_true, if_false]
    exact .pure hasTy
  · simp only [ne_eq, same, not_false_eq_true, if_true]
    exact .throw _

/-- Inferring the type of a node follows the rules if inferring those of its children does. -/
theorem ensures_inferNode {node : Node} (present : program.table.get? handle = some node)
    (infers : ∀ child ∈ node.children, Ensures program.RightTypes (infer child)
      (program.HasTy child)) :
    Ensures program.RightTypes (program.inferNode continuation infer node) (program.HasTy handle) := by
  cases node with
  | primitive op operands =>
    by_cases arity : operands.length = op.arity
    · simp only [inferNode, arity, ne_eq, not_true, if_false]
      refine (Ensures.forM fun operand member =>
        ensures_expectTy continuation op.operandTy (infers operand member)).bind ?_
      exact fun _ operandTy => .pure (.primitive present arity operandTy)
    · simp only [inferNode, ne_eq, arity, not_false_eq_true, if_true]
      exact .throw _
  | abstraction target =>
    refine (ensures_graph fun label resolved => resolve_eq_ok_iff.mp resolved).bind ?_
    exact fun label found => .pure (.abstraction present found)
  | parameter target index =>
    refine ensures_graph fun ty success => ?_
    obtain ⟨-, -, success⟩ := Results.bind_eq_ok_iff.mp success
    obtain ⟨label, resolved, success⟩ := Results.bind_eq_ok_iff.mp success
    cases atIndex : label.signature[index]? with
    | none => rw [atIndex] at success; cases success
    | some found =>
      rw [atIndex] at success
      cases success
      exact .parameter present (resolve_eq_ok_iff.mp resolved) atIndex
  | quote literal => exact .pure (.quote present)
  | cast source ty =>
    refine (infers source (List.mem_singleton_self source)).bind fun actual sourceTy => ?_
    by_cases castable : actual.castable ty = true
    · simp only [castable, if_true]
      exact .pure (.cast present sourceTy castable)
    · simp only [castable, if_false, Bool.false_eq_true]
      exact .throw _
  | _ => exact .throw _

/-- Inferring the type of an expression follows the rules. -/
theorem ensures_inferBelow (program : Program) (continuation : Name) (bound : Nat) (handle : Handle) :
    Ensures program.RightTypes (program.inferBelow continuation bound handle)
      (program.HasTy handle) := by
  induction bound generalizing handle with
  | zero => exact .throw _
  | succ bound ih =>
    intro known ty later right ran
    simp only [inferBelow, StateT.run_bind, StateT.run_get, pure_bind] at ran
    cases remembered : known.lookup handle with
    | some found =>
      rw [remembered] at ran
      cases ran
      exact ⟨right handle ty remembered, right⟩
    | none =>
      rw [remembered] at ran
      refine Ensures.bind (ensures_graph fun node found => Table.get_eq_ok_iff.mp found) ?_
        known ty later right ran
      intro node present
      refine (ensures_inferNode present fun child _ => ih child).bind fun ty hasTy => ?_
      intro known result later right ran
      cases ran
      exact ⟨hasTy, Results.forall_lookup_cons right hasTy⟩

theorem ensures_typeOf (program : Program) (continuation : Name) (handle : Handle) :
    Ensures program.RightTypes (program.typeOf continuation handle) (program.HasTy handle) :=
  ensures_inferBelow program continuation (handle + 1) handle

/-- A body that passes the check is well typed. -/
theorem ensures_checkBody (program : Program) (continuation : Name) (node : Node) :
    Ensures program.RightTypes (program.checkBody continuation node)
      fun _ => program.BodyTyped node := by
  have expects (expected : Ty) (handle : Handle) :=
    ensures_expectTy continuation expected (ensures_typeOf program continuation handle)
  cases node with
  | call callee arguments =>
    refine (ensures_typeOf program continuation callee).bind fun actual calleeTy => ?_
    cases actual with
    | fn params =>
      by_cases count : params.length = arguments.length
      · simp only [count, ne_eq, not_true, if_false]
        have checked : Ensures program.RightTypes ((params.zip arguments).forM _)
            fun _ => ∀ pair ∈ params.zip arguments, program.HasTy pair.2 pair.1 :=
          .forM fun pair _ => expects pair.1 pair.2
        refine checked.imp fun _ argumentTy => .call calleeTy (List.Forall₂.flip ?_)
        exact List.forall₂_iff_zip.mpr ⟨count, argumentTy _⟩
      · simp only [ne_eq, count, not_false_eq_true, if_true]
        exact .throw _
    | _ => exact .throw _
  | branch arguments =>
    rcases arguments with _ | ⟨condition, _ | ⟨onTrue, _ | ⟨onFalse, _ | ⟨more, rest⟩⟩⟩⟩
    · exact .throw _
    · exact .throw _
    · exact .throw _
    · refine (expects .bool condition).bind fun _ conditionTy => ?_
      refine (expects (.fn []) onTrue).bind fun _ trueTy => ?_
      exact (expects (.fn []) onFalse).imp fun _ falseTy => .branch conditionTy trueTy falseTy
    · exact .throw _
  | _ => exact .throw _

/-- What the checker accepts follows the rules. -/
theorem typed_of_typeCheck (success : program.typeCheck = .ok ()) : program.Typed := by
  have checked : Ensures program.RightTypes (program.labels.forM program.checkLabel) fun _ =>
      ∀ label ∈ program.labels, ∃ body, program.table.get? label.body = some body ∧
        program.BodyTyped body := by
    refine .forM fun label _ => ?_
    refine (ensures_graph fun node found => Table.get_eq_ok_iff.mp found).bind fun node present => ?_
    exact (ensures_checkBody program label.name node).imp fun _ bodyTyped => ⟨node, present, bodyTyped⟩
  obtain ⟨_, success⟩ := Results.ofSuccess_outcome_eq_ok_iff.mp success
  obtain ⟨⟨_, known⟩, ran, -⟩ := Results.bind_eq_ok_iff.mp success
  exact (checked [] () known nofun ran).1

end Program

end CpsGraph
