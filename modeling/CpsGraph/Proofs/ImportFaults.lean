import CpsGraph.Proofs.FaultlessPrograms
import CpsGraph.Proofs.ImportedLabels

/-! # Why importing fails

Importing checks every node before it imports it, so a failed import found a fault in a part of a
body, and whatever was imported has none. Importing a label does nothing else that could fail: its
name is new, what a body is imported as is a body, and the names in it can always be listed.
-/

namespace CpsGraph.Simplify

variable {old : Program} {Allowed : GraphError → Prop}

/-- Whatever was imported has no fault of its own. -/
def Checked (old : Program) (imported : Pairs) : Prop :=
  ∀ handle new, (handle, new) ∈ imported → ∀ node, old.table.get? handle = some node →
    old.Unfaulty node

/-- An outcome leaves the imports checked, or it is an allowed failure. -/
def Ends {α : Type} (old : Program) (Allowed : GraphError → Prop) :
    EStateM.Result GraphError State α → Prop
  | .ok _ later => Checked old later.imported
  | .error fault _ => Allowed fault

/-- From checked imports an action ends with checked imports, or with an allowed failure. -/
def Runs {α : Type} (old : Program) (Allowed : GraphError → Prop) (action : ImportM α) : Prop :=
  ∀ state, Checked old state.imported → Ends old Allowed (action.run state)

namespace Runs

variable {α β : Type}

theorem pure (value : α) : Runs old Allowed (Pure.pure value : ImportM α) :=
  fun _ checked => checked

theorem throw {fault : GraphError} (allowed : Allowed fault) :
    Runs old Allowed (MonadExcept.throw fault : ImportM α) :=
  fun _ _ => allowed

theorem bind {action : ImportM α} {next : α → ImportM β} (first : Runs old Allowed action)
    (second : ∀ value, Runs old Allowed (next value)) : Runs old Allowed (action >>= next) := by
  intro state checked
  have ran := first state checked
  rw [EStateM.run_bind]
  cases result : action.run state with
  | error fault later =>
    rw [result] at ran
    exact ran
  | ok value middle =>
    rw [result] at ran
    exact second value middle ran

theorem mapM {act : α → ImportM β} {elements : List α}
    (each : ∀ element ∈ elements, Runs old Allowed (act element)) :
    Runs old Allowed (elements.mapM act) := by
  induction elements with
  | nil => exact pure []
  | cons element elements ih =>
    rw [List.mapM_cons]
    apply (each element List.mem_cons_self).bind
    intro first
    apply (ih fun other member => each other (List.mem_cons_of_mem _ member)).bind
    exact fun rest => pure (first :: rest)

/-- Changing anything but the imports does not fail. -/
theorem changing {change : State → State}
    (same : ∀ state, (change state).imported = state.imported) :
    Runs old Allowed (modify change : ImportM PUnit) := by
  intro state checked
  rw [EStateM.run_modify, Ends, same]
  exact checked

theorem reading : Runs old Allowed (get : ImportM State) := fun _ checked => checked

theorem counting : Runs old Allowed countFold := fun _ checked => checked

theorem reporting (event : Event) : Runs old Allowed (report event) := fun _ checked => checked

theorem interning (node : Node) : Runs old Allowed (intern node) := fun _ checked => checked

theorem looking (handle : Handle) : Runs old Allowed (known? handle) := fun _ checked => checked

theorem lift {step : Except GraphError α}
    (allowed : ∀ fault, step = .error fault → Allowed fault) :
    Runs old Allowed (liftExcept step : ImportM α) := by
  intro state checked
  cases step with
  | error fault => exact allowed fault rfl
  | ok value => exact checked

end Runs

section Nodes

variable {op : Operator} {operands : List Handle} {node : Node} {importChild : Handle → ImportM Handle}

theorem runs_foldOperator? (op : Operator) (literals : List Literal) :
    Runs old Allowed (foldOperator? op literals) := by
  unfold foldOperator?
  cases op.evaluate literals with
  | error reason => exact (Runs.reporting _).bind fun _ => .pure none
  | ok literal =>
    exact Runs.counting.bind fun _ => (Runs.interning _).bind fun new => .pure (some new)

theorem runs_applyIdentity? (op : Operator) (operands : List Handle) :
    Runs old Allowed (applyIdentity? op operands) := by
  unfold applyIdentity?
  split
  · next left right =>
    apply (Runs.looking left).bind
    intro knownLeft
    apply (Runs.looking right).bind
    intro knownRight
    cases op.identity? knownLeft knownRight with
    | none => exact .pure none
    | some reduction =>
      have reducing : Runs old Allowed (reduce left right reduction) := by
        cases reduction with
        | left => exact .pure left
        | right => exact .pure right
        | constant literal => exact .interning _
      exact Runs.counting.bind fun _ => reducing.bind fun new => .pure (some new)
  · exact .pure none

/-- Reducing an operator or keeping it never fails. -/
theorem runs_reduceOrKeep (op : Operator) (operands : List Handle) :
    Runs old Allowed (do
      match ← applyIdentity? op operands with
      | some handle => return handle
      | none => intern (.primitive op operands) : ImportM Handle) := by
  apply (runs_applyIdentity? op operands).bind
  intro reduced
  cases reduced with
  | some handle => exact .pure handle
  | none => exact .interning _

/-- Importing an operator whose operands are imported never fails. -/
theorem runs_importOperator (op : Operator) (operands : List Handle) :
    Runs old Allowed (importOperator op operands) := by
  unfold importOperator
  apply (Runs.mapM fun handle _ => Runs.looking handle).bind
  intro literals
  cases literals.mapM id with
  | none => exact runs_reduceOrKeep op operands
  | some literals =>
    apply (runs_foldOperator? op literals).bind
    intro folded
    cases folded with
    | some handle => exact .pure handle
    | none => exact runs_reduceOrKeep op operands

theorem resolve_eq_error {name : Name} {fault : GraphError}
    (failed : old.resolve name = .error fault) : fault = .unboundName name ∧ name ∉ old.names := by
  rw [Program.mem_names_iff]
  unfold Program.resolve at failed
  cases found : old.find? name with
  | none => simp_all
  | some label => simp [found] at failed

theorem importNode_malformed {arguments : List Handle} (malformed : arguments.length ≠ branchArity) :
    importNode old importChild (.branch arguments) = throw (.malformedBranch arguments.length) := by
  unfold importNode
  split <;> simp_all [branchArity]

/-- Importing a node fails if the node is at fault, or where importing a child does. -/
theorem runs_importNode (each : ∀ child ∈ node.children, Runs old Allowed (importChild child))
    (own : ∀ fault, old.Faulty node fault → Allowed fault) :
    Runs old Allowed (importNode old importChild node) := by
  cases node with
  | call callee arguments =>
    apply (each callee List.mem_cons_self).bind
    intro newCallee
    apply (Runs.mapM fun child member => each child (List.mem_cons_of_mem _ member)).bind
    exact fun newArguments => .interning _
  | branch arguments =>
    by_cases wellMade : arguments.length = branchArity
    · obtain ⟨condition, onTrue, onFalse, rfl⟩ := List.length_eq_three.mp wellMade
      apply (each condition (by simp [Node.children])).bind
      intro newCondition
      apply (Runs.looking newCondition).bind
      intro known
      cases known.bind Literal.bool? with
      | some taken =>
        apply (each (if taken then onTrue else onFalse) (by cases taken <;> simp [Node.children])).bind
        intro newCallee
        refine Runs.bind (.changing fun _ => rfl) fun _ => ?_
        exact (Runs.reporting _).bind fun _ => .interning _
      | none =>
        apply (each onTrue (by simp [Node.children])).bind
        intro newTrue
        apply (each onFalse (by simp [Node.children])).bind
        exact fun newFalse => .interning _
    · rw [importNode_malformed wellMade]
      exact .throw (own _ (.branch wellMade))
  | primitive op operands =>
    apply (Runs.mapM each).bind
    exact fun newOperands => runs_importOperator op newOperands
  | cast source ty =>
    apply (each source (List.mem_singleton_self source)).bind
    intro newSource
    apply (Runs.looking newSource).bind
    intro known
    cases known.bind fun literal => (literal.cast ty).toOption with
    | some literal => exact Runs.counting.bind fun _ => .interning _
    | none => exact .interning _
  | abstraction target =>
    refine (Runs.lift fun fault failed => own fault ?_).bind fun _ => .interning _
    obtain ⟨rfl, unbound⟩ := resolve_eq_error failed
    exact .abstraction unbound
  | parameter target index =>
    exact (Runs.lift fun fault failed => own fault (.parameter failed)).bind fun _ => .interning _
  | quote literal => exact .interning _
  | continuation => exact .throw (own _ .continuation)

/-- A node that was imported has no fault. -/
theorem unfaulty_of_importNode {state later : State} {new : Handle}
    (ran : (importNode old importChild node).run state = .ok new later) : old.Unfaulty node := by
  cases node with
  | branch arguments =>
    apply Program.unfaulty_branch.mpr
    by_contra malformed
    rw [importNode_malformed malformed] at ran
    cases ran
  | abstraction target =>
    obtain ⟨label, _, resolved, -⟩ := Results.run_bind_eq_ok_iff.mp ran
    have found := Program.resolve_eq_ok_iff.mp (liftExcept_run.mp resolved).1
    exact Program.unfaulty_abstraction.mpr (Program.mem_names_iff.mpr ⟨label, found⟩)
  | parameter target index =>
    obtain ⟨handle, _, resolved, -⟩ := Results.run_bind_eq_ok_iff.mp ran
    exact Program.unfaulty_parameter.mpr ⟨handle, (liftExcept_run.mp resolved).1⟩
  | continuation => cases ran
  | _ => simp

end Nodes

section Handles

variable {handle new : Handle} {imported : Pairs} {node : Node}

theorem Checked.cons (checked : Checked old imported) (present : old.table.get? handle = some node)
    (unfaulty : old.Unfaulty node) : Checked old ((handle, new) :: imported) := by
  intro other found member stored presentToo
  rcases List.mem_cons.mp member with same | before
  · cases same
    rw [present] at presentToo
    cases presentToo
    exact unfaulty
  · exact checked other found before stored presentToo

/-- Importing a handle fails only where `Holds` allows it, if `Holds` is passed on from a node to its
children with the bound. -/
theorem runs_importBelow (Holds : Nat → Handle → Prop)
    (exhausted : ∀ handle, Holds 0 handle → Allowed (.unknownHandle handle))
    (missing : ∀ bound handle, Holds (bound + 1) handle → old.table.get? handle = none →
      Allowed (.unknownHandle handle))
    (faulty : ∀ bound handle node fault, Holds (bound + 1) handle →
      old.table.get? handle = some node → old.Faulty node fault → Allowed fault)
    (passedOn : ∀ bound handle node child, Holds (bound + 1) handle →
      old.table.get? handle = some node → child ∈ node.children → Holds bound child)
    {bound : Nat} (holds : Holds bound handle) : Runs old Allowed (importBelow old bound handle) := by
  induction bound generalizing handle with
  | zero => exact .throw (exhausted handle holds)
  | succ bound ih =>
    unfold importBelow
    apply Runs.reading.bind
    intro current
    cases current.imported.lookup handle with
    | some new => exact Runs.bind (.changing fun _ => rfl) fun _ => .pure new
    | none =>
      intro state checked
      cases present : old.table.get? handle with
      | none =>
        have absent : old.table.get handle = .error (.unknownHandle handle) := by
          simp [Table.get, present]
        rw [absent]
        exact missing bound handle holds present
      | some node =>
        rw [Table.get_eq_ok_iff.mpr present]
        have ran := runs_importNode (fun child member => ih (passedOn bound handle node child holds
          present member)) (fun fault => faulty bound handle node fault holds present) state checked
        change Ends old Allowed ((importNode old (importBelow old bound) node >>= fun new => do
          modify fun state => { state with imported := (handle, new) :: state.imported }
          return new : ImportM Handle).run state)
        rw [EStateM.run_bind]
        cases result : (importNode old (importBelow old bound) node).run state with
        | error fault later =>
          rw [result] at ran
          exact ran
        | ok new later =>
          rw [result] at ran
          exact ran.cons present (unfaulty_of_importNode result)

/-- Importing a handle fails because of a node that is at fault, or because the table is no table of
a program. -/
theorem runs_importHandle (inRange : handle < old.table.size) :
    Runs old (fun fault => fault.isNodeFault = true ∨
      ∃ handle, fault = .unknownHandle handle ∧ ¬ old.table.WellFormed) (importHandle old handle) := by
  refine runs_importBelow (fun bound handle =>
    old.table.WellFormed → handle < bound ∧ handle < old.table.size) ?_ ?_ ?_ ?_ ?_
  · intro handle holds
    refine .inr ⟨handle, rfl, fun wellFormed => ?_⟩
    exact Nat.not_lt_zero _ (holds wellFormed).1
  · intro bound handle holds missing
    refine .inr ⟨handle, rfl, fun wellFormed => ?_⟩
    obtain ⟨node, present⟩ := Table.exists_get?_of_lt (holds wellFormed).2
    simp [missing] at present
  · exact fun bound handle node fault holds present faulty => .inl faulty.isNodeFault
  · intro bound handle node child holds present isChild wellFormed
    have older := wellFormed.child_lt present isChild
    obtain ⟨inBound, inRange⟩ := holds wellFormed
    exact ⟨Nat.lt_of_lt_of_le older (Nat.le_of_lt_succ inBound), Nat.lt_trans older inRange⟩
  · exact fun _ => ⟨Nat.lt_succ_self handle, inRange⟩

/-- Importing a handle without a faulty part does not fail. -/
theorem runs_importHandle_of_throughout (wellFormed : old.table.WellFormed)
    (throughout : old.table.Throughout old.Unfaulty handle) :
    Runs old (fun _ => False) (importHandle old handle) := by
  refine runs_importBelow (fun bound handle =>
    handle < bound ∧ old.table.Throughout old.Unfaulty handle) ?_ ?_ ?_ ?_ ?_
  · exact fun handle holds => Nat.not_lt_zero _ holds.1
  · intro bound handle holds missing
    obtain ⟨node, present, -⟩ := holds.2.exists_get?
    simp [missing] at present
  · intro bound handle node fault holds present faulty
    exact ((Table.throughout_iff wellFormed present).mp holds.2).1 fault faulty
  · intro bound handle node child holds present isChild
    have older := wellFormed.child_lt present isChild
    exact ⟨Nat.lt_of_lt_of_le older (Nat.le_of_lt_succ holds.1),
      ((Table.throughout_iff wellFormed present).mp holds.2).2 child isChild⟩
  · exact ⟨Nat.lt_succ_self handle, throughout⟩

end Handles

section Labels

variable {table : Table} {imported : Pairs} {state later : State} {handle new : Handle} {node : Node}
  {label : Label} {name : Name} {queue done : List Name}

/-- The search for names goes from a node to its children. -/
theorem edgesBelow_children (present : table.get? handle = some node) :
    Search.edgesBelow table.size (fun handle => do return (← table.get handle).children.reverse)
      handle = .ok node.children.reverse := by
  refine Search.edgesBelow_eq_ok_iff.mpr ⟨Table.lt_size_of_get? present, ?_⟩
  rw [Table.get_eq_ok_iff.mpr present]
  rfl

/-- The names that a node mentions can be listed, and nothing else is. -/
theorem exists_mentions (wellFormed : table.WellFormed) (inRange : handle < table.size) :
    ∃ found, mentions table handle = .ok found ∧ ∀ name ∈ found, table.Mentions handle name := by
  have edges {part : Handle} (inside : part ∈ table.parts handle) : ∃ node,
      table.get? part = some node ∧ Search.edgesBelow table.size
        (fun handle => do return (← table.get handle).children.reverse) part =
          .ok node.children.reverse := by
    obtain ⟨node, present⟩ := Table.exists_get?_of_lt
      (Nat.lt_of_le_of_lt (Table.le_of_mem_parts wellFormed inside) inRange)
    exact ⟨node, present, edgesBelow_children present⟩
  have start : ∀ part ∈ [handle], part ∈ table.parts handle := by
    simp [Table.mem_parts_self]
  have kept {part : Handle} {node : Node} (inside : part ∈ table.parts handle)
      (present : table.get? part = some node) :
      ∀ next ∈ node.children.reverse, next ∈ table.parts handle := by
    intro next isNext
    exact Table.child_mem_parts wellFormed inside present (List.mem_reverse.mp isNext)
  have faultFree : (Search.walk .depthFirst table.size
      (fun handle => do return (← table.get handle).children.reverse) [handle] []).fault = none := by
    apply Search.fault_eq_none start
    intro part inside
    obtain ⟨node, present, success⟩ := edges inside
    exact ⟨_, success, kept inside present⟩
  refine ⟨_, Results.bind_eq_ok_iff.mpr ⟨_, Walk.result_eq_ok_iff.mpr ⟨faultFree, rfl⟩, rfl⟩, ?_⟩
  intro name listed
  obtain ⟨part, visited, named⟩ := List.mem_filterMap.mp listed
  have inside : part ∈ table.parts handle := by
    refine Search.forall_mem_order start (fun part found inside success => ?_) part visited
    obtain ⟨node, present, successAgain⟩ := edges inside
    rw [success] at successAgain
    cases successAgain
    exact kept inside present
  refine ⟨part, inside, ?_⟩
  unfold mentioned? at named
  split at named <;> simp_all

/-- A body is imported as a body. -/
theorem Translates.isBody (translates : Translates table imported node new)
    (isBody : node.isBody = true) :
    ∃ newNode, table.get? new = some newNode ∧ newNode.isBody = true := by
  cases translates with
  | call _ _ present | collapsed _ _ _ present | branch _ _ _ _ present => exact ⟨_, present, rfl⟩
  | _ => cases isBody

/-- What importing a label does: its body is imported, the label is defined and counted, and the names
that the body mentions are listed. -/
theorem importLabel_eq_ok {mentioned : List Name}
    (ran : (importLabel old label).run state = .ok mentioned later) :
    ∃ body middle program, (importHandle old label.body).run state = .ok body middle ∧
      middle.program.define label.name label.signature body label.external = .ok program ∧
      mentions program.table body = .ok mentioned ∧
      later = { middle with program, kept := middle.kept + 1 } := by
  obtain ⟨body, middle, ranBody, ranRest⟩ := Results.run_bind_eq_ok_iff.mp ran
  obtain ⟨_, _, ranGet, ranRest⟩ := Results.run_bind_eq_ok_iff.mp ranRest
  cases ranGet
  obtain ⟨program, _, ranDefine, ranSet⟩ := Results.run_bind_eq_ok_iff.mp ranRest
  obtain ⟨defined, rfl⟩ := liftExcept_run.mp ranDefine
  obtain ⟨_, _, ranSet, ranMentions⟩ := Results.run_bind_eq_ok_iff.mp ranSet
  cases ranSet
  obtain ⟨listed, rfl⟩ := liftExcept_run.mp ranMentions
  exact ⟨body, _, program, ranBody, defined, listed, rfl⟩

/-- Importing a label appends one label, whose body is imported, and lists the names in it. -/
theorem exists_newLabel {mentioned : List Name}
    (importing : Importing old (name :: queue) done state) (found : old.find? name = some label)
    (ran : (importLabel old label).run state = .ok mentioned later) :
    ∃ newLabel, later.program.labels = state.program.labels ++ [newLabel] ∧ newLabel.name = name ∧
      (label.body, newLabel.body) ∈ later.imported ∧
      mentions later.program.table newLabel.body = .ok mentioned ∧
      later.program.table.Extends state.program.table := by
  obtain ⟨body, middle, program, ranBody, defined, listed, rfl⟩ := importLabel_eq_ok ran
  obtain ⟨grown, faithful, atBody⟩ := gives_importBelow old (label.body + 1) label.body state body
    middle importing.faithful ranBody
  obtain ⟨-, newLabel, table, registered, rfl⟩ := Program.define_eq_ok defined
  obtain ⟨growth, -, -, hasName, -, rfl, -⟩ := faithful.wellFormed.register registered
  refine ⟨newLabel, ?_, ?_, atBody, listed, growth.trans grown.table⟩
  · rw [grown.labels]
  · rw [hasName, Program.name_of_find? found]

/-- Importing a label lists only names that the imported body mentions. -/
theorem mentions_of_importLabel {mentioned : List Name}
    (importing : Importing old (name :: queue) done state) (found : old.find? name = some label)
    (ran : (importLabel old label).run state = .ok mentioned later) :
    ∃ body, (label.body, body) ∈ later.imported ∧
      ∀ other ∈ mentioned, later.program.table.Mentions body other := by
  obtain ⟨newLabel, appended, -, pair, listed, -⟩ := exists_newLabel importing found ran
  have wellFormed := (importLabel_run importing found ran).wellFormed
  obtain ⟨_, present, -⟩ := (wellFormed.labels newLabel (by simp [appended])).body
  obtain ⟨_, listedAgain, sound⟩ := exists_mentions wellFormed.table (Table.lt_size_of_get? present)
  rw [listed] at listedAgain
  cases listedAgain
  exact ⟨newLabel.body, pair, sound⟩

/-- A new label is imported once its body is: it can be defined and the names in it can be listed. -/
theorem exists_importLabel (importing : Importing old (name :: queue) done state) (fresh : name ∉ done)
    (found : old.find? name = some label)
    (isBody : ∃ node, old.table.get? label.body = some node ∧ node.isBody = true)
    {body : Handle} {middle : State} (ran : (importHandle old label.body).run state = .ok body middle) :
    ∃ mentioned program, (importLabel old label).run state =
      .ok mentioned { middle with program, kept := middle.kept + 1 } := by
  obtain ⟨grown, faithful, atBody⟩ := gives_importBelow old (label.body + 1) label.body state body
    middle importing.faithful ran
  have wellFormed := importing.wellFormed.grow grown.table faithful.wellFormed grown.labels
  have unknown : label.name ∉ middle.program.names := by
    rw [Program.names, grown.labels, ← Program.names, importing.names, List.mem_reverse,
      Program.name_of_find? found]
    exact fresh
  obtain ⟨node, stored, translates⟩ := faithful.translates label.body body atBody
  obtain ⟨_, storedAgain, isBody⟩ := isBody
  rw [stored] at storedAgain
  cases storedAgain
  obtain ⟨newNode, present, newIsBody⟩ := translates.isBody isBody
  obtain ⟨program, newLabel, defined, programWellFormed, growth, -⟩ :=
    wellFormed.exists_define unknown present newIsBody label.signature label.external
  obtain ⟨mentioned, listed, -⟩ :=
    exists_mentions programWellFormed.table (Table.lt_size_of_get? (growth present))
  refine ⟨mentioned, program, Results.run_bind_eq_ok_iff.mpr ⟨body, middle, ran, ?_⟩⟩
  refine Results.run_bind_eq_ok_iff.mpr ⟨middle, middle, rfl, ?_⟩
  refine Results.run_bind_eq_ok_iff.mpr ⟨program, middle, liftExcept_run.mpr ⟨defined, rfl⟩, ?_⟩
  refine Results.run_bind_eq_ok_iff.mpr ⟨(), _, rfl, liftExcept_run.mpr ⟨listed, rfl⟩⟩

/-- Importing a new label fails only where importing its body does. -/
theorem ends_importLabel (importing : Importing old (name :: queue) done state)
    (checked : Checked old state.imported) (fresh : name ∉ done)
    (found : old.find? name = some label)
    (isBody : ∃ node, old.table.get? label.body = some node ∧ node.isBody = true)
    (runs : Runs old Allowed (importHandle old label.body)) :
    Ends old Allowed ((importLabel old label).run state) := by
  have ran := runs state checked
  cases result : (importHandle old label.body).run state with
  | error fault middle =>
    rw [result] at ran
    unfold importLabel
    rw [EStateM.run_bind, result]
    exact ran
  | ok body middle =>
    rw [result] at ran
    obtain ⟨mentioned, program, ranLabel⟩ := exists_importLabel importing fresh found isBody result
    rw [ranLabel]
    exact ran

section Faults

variable (Queued : Name → Prop)
  (bodies : ∀ label ∈ old.labels, ∃ node, old.table.get? label.body = some node ∧ node.isBody = true)
  (runs : ∀ label ∈ old.labels, Runs old Allowed (importHandle old label.body))
  (unbound : ∀ name, Queued name → name ∉ old.names → Allowed (.unboundName name))
  (mentioned : ∀ (state : State) handle new name,
    Faithful old state.program.table state.imported → Checked old state.imported →
      (handle, new) ∈ state.imported → state.program.table.Mentions new name → Queued name)

include bodies runs unbound mentioned

/-- Importing labels fails only where importing a body does, or because a name in the queue is no
label. -/
theorem ends_importLabels {rounds : Nat} (importing : Importing old queue done state)
    (checked : Checked old state.imported) (queued : ∀ name ∈ queue, Queued name) :
    Ends old Allowed ((importLabels old rounds queue done).run state) := by
  induction rounds generalizing queue done state with
  | zero => exact checked
  | succ rounds ih =>
    rw [importLabels]
    have kept := importing.requeue fun name => Results.mem_dropWhile_or done
    cases left : queue.dropWhile (· ∈ done) with
    | nil => exact checked
    | cons name rest =>
      rw [left] at kept
      have waiting : ∀ other ∈ name :: rest, other ∈ queue := by
        intro other member
        rw [← left] at member
        exact (List.dropWhile_sublist _).subset member
      change Ends old Allowed ((liftExcept (old.resolve name) >>= fun label => do
        let mentioned ← importLabel old label
        importLabels old rounds (rest ++ mentioned) (name :: done) : ImportM Unit).run state)
      cases resolved : old.resolve name with
      | error fault =>
        obtain ⟨rfl, missing⟩ := resolve_eq_error resolved
        exact unbound name (queued name (waiting name List.mem_cons_self)) missing
      | ok label =>
        have found := Program.resolve_eq_ok_iff.mp resolved
        have member := Program.mem_of_find? found
        have ran := ends_importLabel kept checked (Search.not_mem_of_dropWhile_eq_cons left) found
          (bodies label member) (runs label member)
        change Ends old Allowed ((importLabel old label >>= fun mentioned =>
          importLabels old rounds (rest ++ mentioned) (name :: done) : ImportM Unit).run state)
        rw [EStateM.run_bind]
        cases result : (importLabel old label).run state with
        | error fault middle =>
          rw [result] at ran
          exact ran
        | ok listed middle =>
          rw [result] at ran
          have step := importLabel_run kept found result
          apply ih step ran
          intro other member
          rcases List.mem_append.mp member with old | new
          · exact queued other (waiting other (List.mem_cons_of_mem _ old))
          · obtain ⟨body, pair, sound⟩ := mentions_of_importLabel kept found result
            exact mentioned middle _ _ other step.faithful ran pair (sound other new)

theorem ends_importProgram (queued : ∀ label ∈ old.externals, Queued label.name) :
    Ends old Allowed ((importProgram old).run {}) := by
  apply ends_importLabels Queued bodies runs unbound mentioned (importing_empty old _) nofun
  intro name member
  obtain ⟨label, isExternal, rfl⟩ := List.mem_map.mp member
  exact queued label isExternal

end Faults

end Labels

end CpsGraph.Simplify
