import CpsGraph.Client.Builder
import CpsGraph.Proofs.WellFormed

/-! # Building in place

A program under construction can be changed in place: nodes are interned one by one, and a label is
added when its nodes are there. What such a computation did before a failure stays. Nevertheless a
request that fails leaves the program as it was, since all that can fail is done before the first node
is interned; and a request that succeeds gives the handle and the program that it should.
-/

namespace CpsGraph

/-- An outcome with the state that it leaves in place: a failure leaves the state as it was. -/
def Results.inPlace {ε σ α : Type} (state : σ) : Except ε (α × σ) → EStateM.Result ε σ α
  | .ok (value, later) => .ok value later
  | .error error => .error error state

/-- The state that is left in place. -/
def Results.left {ε σ α : Type} : EStateM.Result ε σ α → σ
  | .ok _ state | .error _ state => state

/-- Intern the nodes of a label: the continuation, its closure and its parameters, in this order. -/
def Table.internLabel (table : Table) (name : Name) (signature : Signature) (body : Handle)
    (external : Bool) : Label × Table :=
  let node := table.intern (.continuation name signature body)
  let abstraction := node.2.intern (.abstraction name)
  let parameters := abstraction.2.internAll ((List.range signature.arity).map (.parameter name))
  ({ name, signature, body, node := node.1, abstraction := abstraction.1,
     parameters := parameters.1, external }, parameters.2)

namespace Program

variable {program : Program} {handle : Handle} {handles : List Handle}

theorem checkHandles_cons_of_lt (inRange : handle < program.size) (handles : List Handle) :
    program.checkHandles (handle :: handles) = program.checkHandles handles := by
  change ((program.checkHandle handle >>= fun _ => pure ()) >>= fun _ =>
    program.checkHandles handles) = _
  rw [checkHandle, if_pos inRange]
  rfl

theorem checkHandles_cons_of_le (outside : program.size ≤ handle) (handles : List Handle) :
    program.checkHandles (handle :: handles) = .error (.unknownHandle handle) := by
  change ((program.checkHandle handle >>= fun _ => pure ()) >>= fun _ =>
    program.checkHandles handles) = _
  rw [checkHandle, if_neg (Nat.not_lt.mpr outside)]
  rfl

/-- Handles that pass the check are nodes. -/
theorem lt_size_of_checkHandles (passed : program.checkHandles handles = .ok ()) :
    ∀ handle ∈ handles, handle < program.size := by
  induction handles with
  | nil => simp
  | cons first rest ih =>
    rcases Nat.lt_or_ge first program.size with inRange | outside
    · rw [checkHandles_cons_of_lt inRange] at passed
      exact List.forall_mem_cons.mpr ⟨inRange, ih passed⟩
    · rw [checkHandles_cons_of_le outside] at passed
      cases passed

/-- The check fails on a handle that is no node. -/
theorem exists_of_checkHandles {fault : GraphError}
    (failed : program.checkHandles handles = .error fault) :
    ∃ handle ∈ handles, program.size ≤ handle ∧ fault = .unknownHandle handle := by
  induction handles with
  | nil => cases failed
  | cons first rest ih =>
    rcases Nat.lt_or_ge first program.size with inRange | outside
    · rw [checkHandles_cons_of_lt inRange] at failed
      obtain ⟨handle, member, facts⟩ := ih failed
      exact ⟨handle, List.mem_cons_of_mem first member, facts⟩
    · rw [checkHandles_cons_of_le outside] at failed
      cases failed
      exact ⟨first, List.mem_cons_self, outside, rfl⟩

/-- Check that a label can be defined: its name is new, and its body calls or branches. -/
def checkDefinition (program : Program) (name : Name) (body : Handle) : Except GraphError Unit := do
  if program.contains name then throw (.duplicateLabel name)
  let node ← program.table.get body
  if !node.isBody then throw (.notABody name node.kind)

/-- The program with a label added at the end. -/
def append (program : Program) (added : Label × Table) : Program :=
  ⟨added.2, program.labels ++ [added.1]⟩

/-- All that can fail in a definition is done first. -/
theorem define_eq (program : Program) (name : Name) (signature : Signature) (body : Handle)
    (external : Bool) :
    program.define name signature body external = do
      program.checkDefinition name body
      return program.append (program.table.internLabel name signature body external) := by
  unfold define checkDefinition Table.register
  cases program.contains name with
  | true => rfl
  | false =>
    cases program.table.get body with
    | error fault => rfl
    | ok node =>
      dsimp only [bind, Except.bind]
      cases node.isBody <;> rfl

theorem contains_eq_false_of_checkDefinition {name : Name} {body : Handle}
    (passed : program.checkDefinition name body = .ok ()) : program.contains name = false := by
  cases known : program.contains name with
  | false => rfl
  | true =>
    rw [checkDefinition, known] at passed
    cases passed

/-- A label that is added under a new name is found by its name. -/
theorem resolve_append {name : Name} (fresh : program.contains name = false) (signature : Signature)
    (body : Handle) (external : Bool) :
    (program.append (program.table.internLabel name signature body external)).resolve name =
      .ok (program.table.internLabel name signature body external).1 := by
  have missing : program.labels.find? (·.name == name) = none := by
    rwa [contains, Option.isSome_eq_false_iff, Option.isNone_iff_eq_none] at fresh
  rw [resolve_eq_ok_iff, find?, append, List.find?_append, missing, Option.none_or]
  exact List.find?_cons_of_pos (beq_self_eq_true name)

end Program

namespace Client

/-- Changing a program in place. What was done before a failure stays. -/
abbrev InPlaceM := EStateM ClientError Program

/-- A step that does not change the program. -/
def consult {α : Type} (step : Program → Except ClientError α) : InPlaceM α := do
  liftExcept (step (← get))

/-- Intern a node in place. -/
def internHere (node : Node) : InPlaceM Handle := modifyGet fun program => program.intern node

/-- Intern the nodes of a label in place, one by one. -/
def internLabelHere (name : Name) (signature : Signature) (body : Handle) (external : Bool) :
    InPlaceM Label := do
  let node ← internHere (.continuation name signature body)
  let abstraction ← internHere (.abstraction name)
  let parameters ← ((List.range signature.arity).map (.parameter name)).mapM internHere
  return { name, signature, body, node, abstraction, parameters, external }

/-- Define a label in place. The label is added after its nodes. -/
def defineHere (name : Name) (signature : Signature) (body : Handle) (external : Bool) :
    InPlaceM Handle := do
  consult fun program => program.checkDefinition name body
  let label ← internLabelHere name signature body external
  modify fun program => { program with labels := program.labels ++ [label] }
  return label.abstraction

/-- Serve a request in place. -/
def BuildRequest.perform : BuildRequest → InPlaceM Handle
  | .int value => internHere (.quote (.int value))
  | .bool value => internHere (.quote (.bool value))
  | .bottom ty => do
    let ty ← consult fun _ => Ty.parse ty
    internHere (.quote (.bottom ty))
  | .parameter name index => internHere (.parameter name index)
  | .reference name => internHere (.abstraction name)
  | .primitive op operands => do
    let op ← consult fun _ => readOperator op
    consult fun program => program.checkHandles operands
    internHere (.primitive op operands)
  | .cast source ty => do
    let ty ← consult fun _ => Ty.parse ty
    consult fun program => program.checkHandles [source]
    internHere (.cast source ty)
  | .call callee arguments => do
    consult fun program => program.checkHandles [callee]
    consult fun program => program.checkHandles arguments
    internHere (.call callee arguments)
  | .branch condition onTrue onFalse => do
    consult fun program => program.checkHandles [condition, onTrue, onFalse]
    internHere (.branch [condition, onTrue, onFalse])
  | .define name signature body external => do
    let signature ← consult fun _ => Signature.parse signature
    consult fun program => program.checkHandles [body]
    defineHere name signature body external

theorem consult_run_of_ok {α β : Type} {program : Program} {step : Program → Except ClientError α}
    {value : α} (success : step program = .ok value) (next : α → InPlaceM β) :
    (consult step >>= next).run program = (next value).run program := by
  change (liftExcept (step program) >>= next : InPlaceM β).run program = _
  rw [success]
  rfl

theorem consult_run_of_error {α β : Type} {program : Program} {step : Program → Except ClientError α}
    {error : ClientError} (failure : step program = .error error) (next : α → InPlaceM β) :
    (consult step >>= next).run program = .error error program := by
  change (liftExcept (step program) >>= next : InPlaceM β).run program = _
  rw [failure]
  rfl

/-- A step that does not change the program may come first, in place as elsewhere. -/
theorem consult_bind_run {α β : Type} {program : Program} {step : Program → Except ClientError α}
    {next : α → InPlaceM β} {result : α → Except ClientError (β × Program)}
    (agrees : ∀ value, step program = .ok value →
      (next value).run program = Results.inPlace program (result value)) :
    (consult step >>= next).run program = Results.inPlace program (step program >>= result) := by
  cases found : step program with
  | error error => exact consult_run_of_error found next
  | ok value => exact (consult_run_of_ok found next).trans (agrees value found)

/-- Interning nodes one by one in place interns them all. -/
theorem mapM_internHere_run (program : Program) (nodes : List Node) :
    (nodes.mapM internHere).run program =
      .ok (program.table.internAll nodes).1 { program with table := (program.table.internAll nodes).2 } := by
  induction nodes generalizing program with
  | nil => rfl
  | cons node nodes ih =>
    rw [List.mapM_cons, EStateM.run_bind]
    change (nodes.mapM internHere >>= fun rest => pure ((program.intern node).1 :: rest)).run
      (program.intern node).2 = _
    rw [EStateM.run_bind, ih]
    rfl

theorem internLabelHere_run (program : Program) (name : Name) (signature : Signature) (body : Handle)
    (external : Bool) :
    (internLabelHere name signature body external).run program =
      .ok (program.table.internLabel name signature body external).1
        { program with table := (program.table.internLabel name signature body external).2 } := by
  change ((((List.range signature.arity).map (.parameter name)).mapM internHere >>= _ :
    InPlaceM Label).run _) = _
  rw [EStateM.run_bind, mapM_internHere_run]
  rfl

/-- Defining a label in place gives its closure and the program with the label, and changes nothing if
the label cannot be defined. -/
theorem defineHere_run (program : Program) (name : Name) (signature : Signature) (body : Handle)
    (external : Bool) :
    (defineHere name signature body external).run program =
      Results.inPlace program (do
        let program ← program.define name signature body external
        let label ← program.resolve name
        return (label.abstraction, program) : Except ClientError (Handle × Program)) := by
  -- After the check nothing fails: interning never does, and the new name is found.
  rw [Program.define_eq]
  cases checked : program.checkDefinition name body with
  | error fault =>
    have failure : (liftM (program.checkDefinition name body) : Except ClientError Unit) =
        .error (.graph fault) := by
      rw [checked]
      rfl
    exact consult_run_of_error failure _
  | ok _ =>
    have success : (liftM (program.checkDefinition name body) : Except ClientError Unit) = .ok () := by
      rw [checked]
      rfl
    refine (consult_run_of_ok success _).trans ?_
    rw [EStateM.run_bind, internLabelHere_run]
    have found := Program.resolve_append (Program.contains_eq_false_of_checkDefinition checked)
      signature body external
    change _ = Results.inPlace program
      (liftM ((program.append (program.table.internLabel name signature body external)).resolve name) >>= _)
    rw [found]
    rfl

/-- A request that is served in place gives the handle and the program that it should, and changes
nothing if it fails. -/
theorem perform_run (program : Program) (request : BuildRequest) :
    request.perform.run program = Results.inPlace program (request.serve program) := by
  cases request with
  | int value => rfl
  | bool value => rfl
  | parameter name index => rfl
  | reference name => rfl
  | bottom ty => exact consult_bind_run fun _ _ => rfl
  | primitive op operands =>
    exact consult_bind_run fun _ _ => consult_bind_run fun _ _ => rfl
  | cast source ty => exact consult_bind_run fun _ _ => consult_bind_run fun _ _ => rfl
  | call callee arguments =>
    -- Checking the callee before the arguments finds the same handle as checking them together.
    have split : (BuildRequest.call callee arguments).serve program = do
        program.checkHandles [callee]
        program.checkHandles arguments
        return program.intern (.call callee arguments) := by
      dsimp only [BuildRequest.serve]
      rcases Nat.lt_or_ge callee program.size with inRange | outside
      · rw [Program.checkHandles_cons_of_lt inRange, Program.checkHandles_cons_of_lt inRange]
        rfl
      · rw [Program.checkHandles_cons_of_le outside, Program.checkHandles_cons_of_le outside]
        rfl
    rw [split]
    exact consult_bind_run fun _ _ => consult_bind_run fun _ _ => rfl
  | branch condition onTrue onFalse => exact consult_bind_run fun _ _ => rfl
  | define name signature body external =>
    refine consult_bind_run fun signature _ => consult_bind_run fun _ _ => ?_
    exact defineHere_run program name signature body external

end Client

end CpsGraph
