import CpsGraph.Proofs.Parts
import CpsGraph.Simplify

/-! # What importing a node gives

Simplification imports the nodes of a program into a table under construction and remembers the new
handle of each. `Simplify.Translates` says, rule by rule, what the new handle of a node denotes in
terms of the new handles of its parts: the rebuilt node, a folded literal, what an identity leaves,
or the call that a branch collapsed to. Importing keeps the table well formed and every remembered
handle justified by one of these rules; the rules are stable, so they can be read off at the end.
-/

namespace CpsGraph

/-- The literal at a handle, if it is known. -/
def Table.known? (table : Table) (handle : Handle) : Option Literal :=
  (table.get? handle).bind Node.known?

theorem Table.known?_eq_some_iff {table : Table} {handle : Handle} {literal : Literal} :
    table.known? handle = some literal ↔
      table.get? handle = some (.quote literal) ∧ literal.isKnown = true := by
  unfold known?
  cases table.get? handle with
  | none => simp
  | some node =>
    cases node with
    | quote found =>
      by_cases isKnown : found.isKnown <;> simp [Node.known?, isKnown]
      · rintro rfl
        exact isKnown
      · rintro rfl
        simpa using isKnown
    | _ => simp [Node.known?]

/-- Growing a table does not make more of its literals known. -/
theorem Table.known?_of_extends {table grown : Table} {handle : Handle}
    (growth : grown.Extends table) (inRange : handle < table.size) :
    grown.known? handle = table.known? handle := by
  obtain ⟨node, present⟩ := Table.exists_get?_of_lt inRange
  rw [known?, known?, present, growth present]

theorem Literal.bool?_eq_some_iff {literal : Literal} {value : Bool} :
    literal.bool? = some value ↔ literal = .bool value := by
  cases literal <;> simp [Literal.bool?]

namespace Simplify

/-- Old handles with the new ones that they were imported as. -/
abbrev Pairs := List (Handle × Handle)

/-- Several handles were imported, one by one. -/
def MapsAll (imported : Pairs) : (old new : List Handle) → Prop :=
  List.Forall₂ fun old new => (old, new) ∈ imported

/-- The operands are not all known, or the operator fails on them. -/
def Unfoldable (table : Table) (op : Operator) (operands : List Handle) : Prop :=
  ∀ literals, operands.map table.known? = literals.map some →
    ∀ literal, op.evaluate literals ≠ .ok literal

/-- There are not two operands to which an identity applies. -/
def Irreducible (table : Table) (op : Operator) (operands : List Handle) : Prop :=
  ∀ left right, operands = [left, right] →
    op.identity? (table.known? left) (table.known? right) = none

/-- What an identity leaves of two operands. -/
def Leaves (table : Table) (left right new : Handle) : Reduction → Prop
  | .left => new = left
  | .right => new = right
  | .constant literal => table.get? new = some (.quote literal)

/-- The rules by which a node is imported, given the imported parts. Each rule has the conditions
under which it is chosen. -/
inductive Translates (table : Table) (imported : Pairs) : Node → Handle → Prop
  | call {callee newCallee new : Handle} {arguments newArguments : List Handle}
      (atCallee : (callee, newCallee) ∈ imported) (atArguments : MapsAll imported arguments newArguments)
      (present : table.get? new = some (.call newCallee newArguments)) :
      Translates table imported (.call callee arguments) new
  | collapsed {condition onTrue onFalse newCondition newCallee new : Handle} {taken : Bool}
      (atCondition : (condition, newCondition) ∈ imported)
      (decided : table.known? newCondition = some (.bool taken))
      (atTarget : (if taken then onTrue else onFalse, newCallee) ∈ imported)
      (present : table.get? new = some (.call newCallee [])) :
      Translates table imported (.branch [condition, onTrue, onFalse]) new
  | branch {condition onTrue onFalse newCondition newTrue newFalse new : Handle}
      (atCondition : (condition, newCondition) ∈ imported)
      (undecided : (table.known? newCondition).bind Literal.bool? = none)
      (atTrue : (onTrue, newTrue) ∈ imported) (atFalse : (onFalse, newFalse) ∈ imported)
      (present : table.get? new = some (.branch [newCondition, newTrue, newFalse])) :
      Translates table imported (.branch [condition, onTrue, onFalse]) new
  | folded {op : Operator} {operands newOperands : List Handle} {literals : List Literal}
      {literal : Literal} {new : Handle} (atOperands : MapsAll imported operands newOperands)
      (known : newOperands.map table.known? = literals.map some)
      (evaluated : op.evaluate literals = .ok literal)
      (present : table.get? new = some (.quote literal)) :
      Translates table imported (.primitive op operands) new
  | reduced {op : Operator} {left right newLeft newRight new : Handle} {reduction : Reduction}
      (atLeft : (left, newLeft) ∈ imported) (atRight : (right, newRight) ∈ imported)
      (unfoldable : Unfoldable table op [newLeft, newRight])
      (identity : op.identity? (table.known? newLeft) (table.known? newRight) = some reduction)
      (leaves : Leaves table newLeft newRight new reduction) :
      Translates table imported (.primitive op [left, right]) new
  | primitive {op : Operator} {operands newOperands : List Handle} {new : Handle}
      (atOperands : MapsAll imported operands newOperands)
      (unfoldable : Unfoldable table op newOperands)
      (irreducible : Irreducible table op newOperands)
      (present : table.get? new = some (.primitive op newOperands)) :
      Translates table imported (.primitive op operands) new
  | converted {source newSource new : Handle} {ty : Ty} {literal result : Literal}
      (atSource : (source, newSource) ∈ imported) (known : table.known? newSource = some literal)
      (cast : literal.cast ty = .ok result) (present : table.get? new = some (.quote result)) :
      Translates table imported (.cast source ty) new
  | cast {source newSource new : Handle} {ty : Ty} (atSource : (source, newSource) ∈ imported)
      (unknown : ∀ literal, table.known? newSource = some literal → ∀ result, literal.cast ty ≠ .ok result)
      (present : table.get? new = some (.cast newSource ty)) :
      Translates table imported (.cast source ty) new
  | abstraction {target : Name} {new : Handle} (present : table.get? new = some (.abstraction target)) :
      Translates table imported (.abstraction target) new
  | parameter {target : Name} {index : Nat} {new : Handle}
      (present : table.get? new = some (.parameter target index)) :
      Translates table imported (.parameter target index) new
  | quote {literal : Literal} {new : Handle} (present : table.get? new = some (.quote literal)) :
      Translates table imported (.quote literal) new

/-- A table under construction in which every imported handle follows one of the rules. -/
structure Faithful (old : Program) (table : Table) (imported : Pairs) : Prop where
  wellFormed : table.WellFormed
  inRange : ∀ handle new, (handle, new) ∈ imported → new < table.size
  translates : ∀ handle new, (handle, new) ∈ imported → ∃ node, old.table.get? handle = some node ∧
    Translates table imported node new

/-- What importing nodes keeps: handles, imported pairs and labels with their count. -/
structure Grown (before after : State) : Prop where
  table : after.program.table.Extends before.program.table
  imported : before.imported ⊆ after.imported
  labels : after.program.labels = before.program.labels
  kept : after.kept = before.kept

/-- From a faithful state, the action only leads to faithful states that have grown and in which
its result satisfies the condition. -/
def Gives {α : Type} (old : Program) (action : ImportM α) (Result : α → State → Prop) : Prop :=
  ∀ state result later, Faithful old state.program.table state.imported →
    action.run state = .ok result later →
      Grown state later ∧ Faithful old later.program.table later.imported ∧ Result result later

theorem Grown.refl (state : State) : Grown state state :=
  ⟨Table.extends_refl _, fun _ member => member, rfl, rfl⟩

theorem Grown.trans {first second third : State} (later : Grown second third)
    (earlier : Grown first second) : Grown first third :=
  ⟨later.table.trans earlier.table, fun _ member => later.imported (earlier.imported member),
    later.labels.trans earlier.labels, later.kept.trans earlier.kept⟩

variable {old : Program} {table grown : Table} {imported more : Pairs} {node : Node} {new : Handle}

theorem MapsAll.mono {olds news : List Handle} (maps : MapsAll imported olds news)
    (growth : imported ⊆ more) : MapsAll more olds news :=
  maps.imp fun _ _ member => growth member

theorem MapsAll.inRange {olds news : List Handle} (maps : MapsAll imported olds news)
    (inRange : ∀ handle new, (handle, new) ∈ imported → new < table.size) :
    ∀ new ∈ news, new < table.size := by
  intro new member
  obtain ⟨handle, -, pair⟩ := Results.exists_left_of_mem maps member
  exact inRange handle new pair

theorem map_known?_of_extends {operands : List Handle} (growth : grown.Extends table)
    (inRange : ∀ operand ∈ operands, operand < table.size) :
    operands.map grown.known? = operands.map table.known? :=
  List.map_congr_left fun operand member => Table.known?_of_extends growth (inRange operand member)

theorem Unfoldable.mono {op : Operator} {operands : List Handle}
    (unfoldable : Unfoldable table op operands) (growth : grown.Extends table)
    (inRange : ∀ operand ∈ operands, operand < table.size) : Unfoldable grown op operands := by
  intro literals known
  rw [map_known?_of_extends growth inRange] at known
  exact unfoldable literals known

theorem Irreducible.mono {op : Operator} {operands : List Handle}
    (irreducible : Irreducible table op operands) (growth : grown.Extends table)
    (inRange : ∀ operand ∈ operands, operand < table.size) : Irreducible grown op operands := by
  rintro left right rfl
  rw [Table.known?_of_extends growth (inRange left (by simp)),
    Table.known?_of_extends growth (inRange right (by simp))]
  exact irreducible left right rfl

theorem Leaves.mono {left right : Handle} {reduction : Reduction}
    (leaves : Leaves table left right new reduction) (growth : grown.Extends table) :
    Leaves grown left right new reduction := by
  cases reduction with
  | left => exact leaves
  | right => exact leaves
  | constant literal => exact growth leaves

/-- The rules are stable: a handle that follows one still does when more nodes are imported. -/
theorem Translates.mono (translates : Translates table imported node new)
    (growth : grown.Extends table) (members : imported ⊆ more)
    (inRange : ∀ handle new, (handle, new) ∈ imported → new < table.size) :
    Translates grown more node new := by
  cases translates with
  | call atCallee atArguments present =>
    exact .call (members atCallee) (atArguments.mono members) (growth present)
  | collapsed atCondition decided atTarget present =>
    rw [← Table.known?_of_extends growth (inRange _ _ atCondition)] at decided
    exact .collapsed (members atCondition) decided (members atTarget) (growth present)
  | branch atCondition undecided atTrue atFalse present =>
    rw [← Table.known?_of_extends growth (inRange _ _ atCondition)] at undecided
    exact .branch (members atCondition) undecided (members atTrue) (members atFalse) (growth present)
  | folded atOperands known evaluated present =>
    rw [← map_known?_of_extends growth (atOperands.inRange inRange)] at known
    exact .folded (atOperands.mono members) known evaluated (growth present)
  | reduced atLeft atRight unfoldable identity leaves =>
    have operands := MapsAll.inRange (.cons atLeft (.cons atRight .nil)) inRange
    rw [← Table.known?_of_extends growth (inRange _ _ atLeft),
      ← Table.known?_of_extends growth (inRange _ _ atRight)] at identity
    exact .reduced (members atLeft) (members atRight) (unfoldable.mono growth operands) identity
      (leaves.mono growth)
  | primitive atOperands unfoldable irreducible present =>
    have operands := atOperands.inRange inRange
    exact .primitive (atOperands.mono members) (unfoldable.mono growth operands)
      (irreducible.mono growth operands) (growth present)
  | converted atSource known cast present =>
    rw [← Table.known?_of_extends growth (inRange _ _ atSource)] at known
    exact .converted (members atSource) known cast (growth present)
  | cast atSource unknown present =>
    rw [← Table.known?_of_extends growth (inRange _ _ atSource)] at unknown
    exact .cast (members atSource) unknown (growth present)
  | abstraction present => exact .abstraction (growth present)
  | parameter present => exact .parameter (growth present)
  | quote present => exact .quote (growth present)

/-- Growing the table keeps it faithful as long as it stays well formed. -/
theorem Faithful.grow (faithful : Faithful old table imported) (growth : grown.Extends table)
    (closed : grown.WellFormed) : Faithful old grown imported where
  wellFormed := closed
  inRange handle new member :=
    Nat.lt_of_lt_of_le (faithful.inRange handle new member) growth.size_le
  translates handle new member := by
    obtain ⟨node, present, translates⟩ := faithful.translates handle new member
    exact ⟨node, present, translates.mono growth (fun _ inside => inside) faithful.inRange⟩

/-- Interning a node whose parts are there gives a handle for it and imports nothing. -/
theorem intern_run {state later : State} (ran : (intern node).run state = .ok new later)
    (faithful : Faithful old state.program.table state.imported)
    (parts : ∀ child ∈ node.children, child < state.program.table.size) :
    Grown state later ∧ Faithful old later.program.table later.imported ∧
      later.program.table.get? new = some node := by
  cases ran
  have growth := Table.extends_intern state.program.table node
  exact ⟨⟨growth, fun _ inside => inside, rfl, rfl⟩,
    faithful.grow growth (faithful.wellFormed.intern parts), Table.get?_intern _ _⟩

theorem gives_throw {α : Type} (error : GraphError) {Result : α → State → Prop} :
    Gives old (throw error) Result := by
  intro state result later faithful ran
  cases ran

/-- Importing several handles imports each of them. -/
theorem gives_mapM {importChild : Handle → ImportM Handle} {handles : List Handle}
    (each : ∀ handle ∈ handles, Gives old (importChild handle)
      fun new state => (handle, new) ∈ state.imported) :
    Gives old (handles.mapM importChild) fun news state => MapsAll state.imported handles news := by
  induction handles with
  | nil =>
    intro state news later faithful ran
    cases ran
    exact ⟨.refl _, faithful, .nil⟩
  | cons handle handles ih =>
    intro state news later faithful ran
    rw [List.mapM_cons] at ran
    obtain ⟨first, middle, ranFirst, ran⟩ := Results.run_bind_eq_ok_iff.mp ran
    obtain ⟨rest, last, ranRest, ran⟩ := Results.run_bind_eq_ok_iff.mp ran
    cases ran
    obtain ⟨grownFirst, faithful, atFirst⟩ :=
      each handle List.mem_cons_self state first middle faithful ranFirst
    obtain ⟨grownRest, faithful, atRest⟩ :=
      ih (fun other member => each other (List.mem_cons_of_mem _ member)) middle rest _ faithful ranRest
    exact ⟨grownRest.trans grownFirst, faithful, .cons (grownRest.imported atFirst) atRest⟩

theorem known?_run (handle : Handle) (state : State) :
    (known? handle).run state = .ok (state.program.table.known? handle) state := rfl

theorem mapM_known?_run (handles : List Handle) (state : State) :
    (handles.mapM known?).run state = .ok (handles.map state.program.table.known?) state := by
  induction handles with
  | nil => rfl
  | cons handle handles ih =>
    rw [List.mapM_cons, EStateM.run_bind, known?_run]
    simp only [EStateM.run_bind, ih]
    rfl

theorem Translates.inRange (translates : Translates table imported node new)
    (inRange : ∀ handle new, (handle, new) ∈ imported → new < table.size) : new < table.size := by
  cases translates with
  | reduced atLeft atRight unfoldable identity leaves =>
    rename_i reduction
    cases reduction with
    | left => exact leaves ▸ inRange _ _ atLeft
    | right => exact leaves ▸ inRange _ _ atRight
    | constant literal => exact Table.lt_size_of_get? leaves
  | call _ _ present => exact Table.lt_size_of_get? present
  | collapsed _ _ _ present => exact Table.lt_size_of_get? present
  | branch _ _ _ _ present => exact Table.lt_size_of_get? present
  | folded _ _ _ present => exact Table.lt_size_of_get? present
  | primitive _ _ _ present => exact Table.lt_size_of_get? present
  | converted _ _ _ present => exact Table.lt_size_of_get? present
  | cast _ _ present => exact Table.lt_size_of_get? present
  | abstraction present => exact Table.lt_size_of_get? present
  | parameter present => exact Table.lt_size_of_get? present
  | quote present => exact Table.lt_size_of_get? present

section Operators

variable {state later : State} {op : Operator} {operands : List Handle}

/-- Folding gives the literal that the operator evaluates to, and nothing if it fails. -/
theorem foldOperator?_run {literals : List Literal} {result : Option Handle}
    (ran : (foldOperator? op literals).run state = .ok result later)
    (faithful : Faithful old state.program.table state.imported) :
    Grown state later ∧ Faithful old later.program.table later.imported ∧
      result.elim (∀ literal, op.evaluate literals ≠ .ok literal) fun new =>
        ∃ literal, op.evaluate literals = .ok literal ∧
          later.program.table.get? new = some (.quote literal) := by
  unfold foldOperator? at ran
  cases evaluated : op.evaluate literals with
  | error reason =>
    rw [evaluated] at ran
    cases ran
    exact ⟨⟨Table.extends_refl _, fun _ inside => inside, rfl, rfl⟩, faithful, nofun⟩
  | ok literal =>
    rw [evaluated] at ran
    obtain ⟨_, counted, ranCount, ranRest⟩ := Results.run_bind_eq_ok_iff.mp ran
    obtain rfl := Results.run_modify_eq_ok_iff.mp ranCount
    obtain ⟨new, middle, ranIntern, ranReturn⟩ := Results.run_bind_eq_ok_iff.mp ranRest
    obtain ⟨rfl, rfl⟩ := Results.run_pure_eq_ok_iff.mp ranReturn
    obtain ⟨grown, faithful, present⟩ := intern_run ranIntern faithful (by simp [Node.children])
    exact ⟨⟨grown.table, grown.imported, grown.labels, grown.kept⟩, faithful, literal, rfl,
      present⟩

/-- Reducing two operands gives what the identity leaves of them. -/
theorem reduce_run {left right : Handle} {reduction : Reduction}
    (ran : (reduce left right reduction).run state = .ok new later)
    (faithful : Faithful old state.program.table state.imported) :
    Grown state later ∧ Faithful old later.program.table later.imported ∧
      Leaves later.program.table left right new reduction := by
  cases reduction with
  | left => cases ran; exact ⟨.refl _, faithful, rfl⟩
  | right => cases ran; exact ⟨.refl _, faithful, rfl⟩
  | constant literal => exact intern_run ran faithful (by simp [Node.children])

/-- An identity is applied exactly if there are two operands and it holds for them. -/
theorem applyIdentity?_run {result : Option Handle}
    (ran : (applyIdentity? op operands).run state = .ok result later)
    (faithful : Faithful old state.program.table state.imported) :
    Grown state later ∧ Faithful old later.program.table later.imported ∧
      result.elim (Irreducible state.program.table op operands) fun new =>
        ∃ left right reduction, operands = [left, right] ∧ op.identity?
          (state.program.table.known? left) (state.program.table.known? right) = some reduction ∧
            Leaves later.program.table left right new reduction := by
  rcases operands with _ | ⟨left, _ | ⟨right, _ | ⟨third, rest⟩⟩⟩
  · cases ran; exact ⟨.refl _, faithful, nofun⟩
  · cases ran; exact ⟨.refl _, faithful, nofun⟩
  · obtain ⟨knownLeft, _, ranLeft, ran⟩ := Results.run_bind_eq_ok_iff.mp ran
    obtain ⟨knownRight, _, ranRight, ran⟩ := Results.run_bind_eq_ok_iff.mp ran
    rw [known?_run] at ranLeft
    cases ranLeft
    rw [known?_run] at ranRight
    cases ranRight
    cases identity : op.identity? (state.program.table.known? left)
        (state.program.table.known? right) with
    | none =>
      rw [identity] at ran
      cases ran
      refine ⟨.refl _, faithful, ?_⟩
      rintro _ _ ⟨⟩
      exact identity
    | some reduction =>
      rw [identity] at ran
      obtain ⟨_, counted, ranCount, ranRest⟩ := Results.run_bind_eq_ok_iff.mp ran
      obtain rfl := Results.run_modify_eq_ok_iff.mp ranCount
      obtain ⟨new, middle, ranReduce, ranReturn⟩ := Results.run_bind_eq_ok_iff.mp ranRest
      obtain ⟨rfl, rfl⟩ := Results.run_pure_eq_ok_iff.mp ranReturn
      obtain ⟨grown, faithful, leaves⟩ := reduce_run ranReduce faithful
      exact ⟨⟨grown.table, grown.imported, grown.labels, grown.kept⟩, faithful, left, right,
        reduction, rfl, identity, leaves⟩
  · cases ran; exact ⟨.refl _, faithful, nofun⟩

/-- An operator that cannot be folded is reduced by an identity or kept. -/
theorem reduceOrKeep_run {newOperands : List Handle}
    (ran : (do
      match ← applyIdentity? op newOperands with
      | some handle => return handle
      | none => intern (.primitive op newOperands) : ImportM Handle).run state = .ok new later)
    (faithful : Faithful old state.program.table state.imported)
    (atOperands : MapsAll state.imported operands newOperands)
    (unfoldable : Unfoldable state.program.table op newOperands) :
    Grown state later ∧ Faithful old later.program.table later.imported ∧
      Translates later.program.table later.imported (.primitive op operands) new := by
  have inRange := atOperands.inRange faithful.inRange
  obtain ⟨result, middle, ranIdentity, ranRest⟩ := Results.run_bind_eq_ok_iff.mp ran
  obtain ⟨grown, faithful, identity⟩ := applyIdentity?_run ranIdentity faithful
  have atOperands := atOperands.mono grown.imported
  have unfoldable := unfoldable.mono grown.table inRange
  cases result with
  | some result =>
    obtain ⟨rfl, rfl⟩ := Results.run_pure_eq_ok_iff.mp ranRest
    obtain ⟨left, right, reduction, rfl, identity, leaves⟩ := identity
    rw [← Table.known?_of_extends grown.table (inRange left (by simp)),
      ← Table.known?_of_extends grown.table (inRange right (by simp))] at identity
    obtain _ | ⟨atLeft, _ | ⟨atRight, _ | _⟩⟩ := atOperands
    exact ⟨grown, faithful, .reduced atLeft atRight unfoldable identity leaves⟩
  | none =>
    have irreducible : Irreducible middle.program.table op newOperands :=
      Irreducible.mono identity grown.table inRange
    have inRange := atOperands.inRange faithful.inRange
    obtain ⟨interned, faithful, present⟩ := intern_run ranRest faithful inRange
    exact ⟨interned.trans grown, faithful, .primitive (atOperands.mono interned.imported)
      (unfoldable.mono interned.table inRange) (irreducible.mono interned.table inRange) present⟩

/-- Importing an operator whose operands are imported follows the rules for operators. -/
theorem importOperator_run {newOperands : List Handle}
    (ran : (importOperator op newOperands).run state = .ok new later)
    (faithful : Faithful old state.program.table state.imported)
    (atOperands : MapsAll state.imported operands newOperands) :
    Grown state later ∧ Faithful old later.program.table later.imported ∧
      Translates later.program.table later.imported (.primitive op operands) new := by
  have inRange := atOperands.inRange faithful.inRange
  obtain ⟨_, _, ranKnown, ranFold⟩ := Results.run_bind_eq_ok_iff.mp ran
  rw [mapM_known?_run] at ranKnown
  cases ranKnown
  dsimp only at ranFold
  cases known : (newOperands.map state.program.table.known?).mapM id with
  | none =>
    rw [known] at ranFold
    refine reduceOrKeep_run ranFold faithful atOperands fun literals allKnown => ?_
    rw [Results.mapM_id_eq_some_iff.mpr allKnown] at known
    cases known
  | some literals =>
    rw [known] at ranFold
    have allKnown := Results.mapM_id_eq_some_iff.mp known
    obtain ⟨folded, middle, ranFold, ranRest⟩ := Results.run_bind_eq_ok_iff.mp ranFold
    obtain ⟨grown, faithful, fold⟩ := foldOperator?_run ranFold faithful
    have atOperands := atOperands.mono grown.imported
    rw [← map_known?_of_extends grown.table inRange] at allKnown
    cases folded with
    | some folded =>
      obtain ⟨rfl, rfl⟩ := Results.run_pure_eq_ok_iff.mp ranRest
      obtain ⟨literal, evaluated, present⟩ := fold
      exact ⟨grown, faithful, .folded atOperands allKnown evaluated present⟩
    | none =>
      have unfoldable : Unfoldable middle.program.table op newOperands := by
        intro others alsoKnown
        rw [allKnown] at alsoKnown
        rwa [← (List.map_inj_right fun _ _ => Option.some.inj).mp alsoKnown]
      obtain ⟨moreGrown, result⟩ := reduceOrKeep_run ranRest faithful atOperands unfoldable
      exact ⟨moreGrown.trans grown, result⟩

end Operators

section Nodes

variable {importChild : Handle → ImportM Handle}

/-- A step that does not change the state succeeds if its plain version does. -/
theorem liftExcept_run {α : Type} {step : Except GraphError α} {result : α} {state later : State} :
    (liftExcept step : ImportM α).run state = .ok result later ↔ step = .ok result ∧ later = state := by
  cases step with
  | error fault => exact ⟨nofun, fun ⟨failed, _⟩ => nomatch failed⟩
  | ok value =>
    rw [Except.ok.injEq, @eq_comm α value]
    exact Results.run_pure_eq_ok_iff

/-- Importing a branch takes the target of a known condition, or keeps both. -/
theorem gives_importNode_branch {condition onTrue onFalse : Handle}
    (each : ∀ child ∈ [condition, onTrue, onFalse], Gives old (importChild child)
      fun new state => (child, new) ∈ state.imported) :
    Gives old (importNode old importChild (.branch [condition, onTrue, onFalse])) fun new state =>
      Translates state.program.table state.imported (.branch [condition, onTrue, onFalse]) new := by
  intro state new later faithful ran
  obtain ⟨newCondition, middle, ranCondition, ranRest⟩ := Results.run_bind_eq_ok_iff.mp ran
  obtain ⟨grown, faithful, atCondition⟩ :=
    each condition (by simp) state newCondition middle faithful ranCondition
  obtain ⟨known, _, ranKnown, ranRest⟩ := Results.run_bind_eq_ok_iff.mp ranRest
  rw [known?_run] at ranKnown
  cases ranKnown
  have inRange := faithful.inRange condition newCondition atCondition
  cases decided : (middle.program.table.known? newCondition).bind Literal.bool? with
  | some taken =>
    rw [decided] at ranRest
    obtain ⟨newCallee, called, ranTarget, ranRest⟩ := Results.run_bind_eq_ok_iff.mp ranRest
    obtain ⟨grownTarget, faithful, atTarget⟩ :=
      each (if taken then onTrue else onFalse) (by cases taken <;> simp) middle newCallee called
        faithful ranTarget
    obtain ⟨_, counted, ranCount, ranRest⟩ := Results.run_bind_eq_ok_iff.mp ranRest
    obtain rfl := Results.run_modify_eq_ok_iff.mp ranCount
    obtain ⟨_, reported, ranReport, ranIntern⟩ := Results.run_bind_eq_ok_iff.mp ranRest
    obtain rfl := Results.run_modify_eq_ok_iff.mp ranReport
    obtain ⟨interned, faithful, present⟩ := intern_run ranIntern faithful
      (by simpa [Node.children] using faithful.inRange _ _ atTarget)
    have grownLater : Grown called later :=
      ⟨interned.table, interned.imported, interned.labels, interned.kept⟩
    have grownAfter := grownLater.trans grownTarget
    obtain ⟨literal, known, isBool⟩ := Option.bind_eq_some_iff.mp decided
    obtain rfl := Literal.bool?_eq_some_iff.mp isBool
    rw [← Table.known?_of_extends grownAfter.table inRange] at known
    exact ⟨grownAfter.trans grown, faithful, .collapsed (grownAfter.imported atCondition) known
      (interned.imported atTarget) present⟩
  | none =>
    rw [decided] at ranRest
    obtain ⟨newTrue, afterTrue, ranTrue, ranRest⟩ := Results.run_bind_eq_ok_iff.mp ranRest
    obtain ⟨grownTrue, faithful, atTrue⟩ :=
      each onTrue (by simp) middle newTrue afterTrue faithful ranTrue
    obtain ⟨newFalse, afterFalse, ranFalse, ranIntern⟩ := Results.run_bind_eq_ok_iff.mp ranRest
    obtain ⟨grownFalse, faithful, atFalse⟩ :=
      each onFalse (by simp) afterTrue newFalse afterFalse faithful ranFalse
    have grownTargets := grownFalse.trans grownTrue
    have atCondition := grownTargets.imported atCondition
    have atTrue := grownFalse.imported atTrue
    obtain ⟨interned, faithful, present⟩ := intern_run ranIntern faithful
      (MapsAll.inRange (.cons atCondition (.cons atTrue (.cons atFalse .nil))) faithful.inRange)
    have grownAfter := interned.trans grownTargets
    rw [← Table.known?_of_extends grownAfter.table inRange] at decided
    exact ⟨grownAfter.trans grown, faithful, .branch (interned.imported atCondition) decided
      (interned.imported atTrue) (interned.imported atFalse) present⟩

/-- Importing a cast converts a known literal, or keeps the cast. -/
theorem gives_importNode_cast {source : Handle} {ty : Ty} (atSource : Gives old (importChild source)
      fun new state => (source, new) ∈ state.imported) :
    Gives old (importNode old importChild (.cast source ty)) fun new state =>
      Translates state.program.table state.imported (.cast source ty) new := by
  intro state new later faithful ran
  obtain ⟨newSource, middle, ranSource, ranRest⟩ := Results.run_bind_eq_ok_iff.mp ran
  obtain ⟨grown, faithful, atSource⟩ := atSource state newSource middle faithful ranSource
  have inRange := faithful.inRange source newSource atSource
  obtain ⟨known, _, ranKnown, ranRest⟩ := Results.run_bind_eq_ok_iff.mp ranRest
  rw [known?_run] at ranKnown
  cases ranKnown
  cases converted : (middle.program.table.known? newSource).bind
      fun literal => (literal.cast ty).toOption with
  | some result =>
    rw [converted] at ranRest
    obtain ⟨_, counted, ranCount, ranIntern⟩ := Results.run_bind_eq_ok_iff.mp ranRest
    obtain rfl := Results.run_modify_eq_ok_iff.mp ranCount
    obtain ⟨interned, faithful, present⟩ := intern_run ranIntern faithful (by simp [Node.children])
    have grownLater : Grown middle later :=
      ⟨interned.table, interned.imported, interned.labels, interned.kept⟩
    obtain ⟨literal, known, cast⟩ := Option.bind_eq_some_iff.mp converted
    rw [← Table.known?_of_extends grownLater.table inRange] at known
    exact ⟨grownLater.trans grown, faithful, .converted (grownLater.imported atSource) known
      (Results.toOption_eq_some_iff.mp cast) present⟩
  | none =>
    rw [converted] at ranRest
    obtain ⟨interned, faithful, present⟩ := intern_run ranRest faithful
      (by simpa [Node.children] using inRange)
    refine ⟨interned.trans grown, faithful, .cast (interned.imported atSource) ?_ present⟩
    intro literal known result cast
    rw [Table.known?_of_extends interned.table inRange] at known
    rw [known, Option.bind_some, Results.toOption_eq_some_iff.mpr cast] at converted
    cases converted

/-- Importing a node follows the rules if importing its children imports them. -/
theorem gives_importNode (each : ∀ child ∈ node.children, Gives old (importChild child)
      fun new state => (child, new) ∈ state.imported) :
    Gives old (importNode old importChild node) fun new state =>
      Translates state.program.table state.imported node new := by
  cases node with
  | call callee arguments =>
    intro state new later faithful ran
    obtain ⟨newCallee, middle, ranCallee, ranRest⟩ := Results.run_bind_eq_ok_iff.mp ran
    obtain ⟨grown, faithful, atCallee⟩ :=
      each callee List.mem_cons_self state newCallee middle faithful ranCallee
    obtain ⟨newArguments, last, ranArguments, ranIntern⟩ := Results.run_bind_eq_ok_iff.mp ranRest
    obtain ⟨grownArguments, faithful, atArguments⟩ :=
      gives_mapM (fun child member => each child (List.mem_cons_of_mem _ member)) middle newArguments
        last faithful ranArguments
    have atCallee := grownArguments.imported atCallee
    obtain ⟨interned, faithful, present⟩ := intern_run ranIntern faithful
      (MapsAll.inRange (.cons atCallee atArguments) faithful.inRange)
    exact ⟨interned.trans (grownArguments.trans grown), faithful,
      .call (interned.imported atCallee) (atArguments.mono interned.imported) present⟩
  | branch arguments =>
    rcases arguments with _ | ⟨condition, _ | ⟨onTrue, _ | ⟨onFalse, _ | ⟨more, rest⟩⟩⟩⟩
    · exact gives_throw _
    · exact gives_throw _
    · exact gives_throw _
    · exact gives_importNode_branch each
    · exact gives_throw _
  | primitive op operands =>
    intro state new later faithful ran
    obtain ⟨newOperands, middle, ranOperands, ranRest⟩ := Results.run_bind_eq_ok_iff.mp ran
    obtain ⟨grown, faithful, atOperands⟩ :=
      gives_mapM each state newOperands middle faithful ranOperands
    obtain ⟨moreGrown, result⟩ := importOperator_run ranRest faithful atOperands
    exact ⟨moreGrown.trans grown, result⟩
  | cast source ty => exact gives_importNode_cast (each source (List.mem_singleton_self source))
  | abstraction target =>
    intro state new later faithful ran
    obtain ⟨label, _, ranResolve, ranIntern⟩ := Results.run_bind_eq_ok_iff.mp ran
    obtain ⟨-, rfl⟩ := liftExcept_run.mp ranResolve
    obtain ⟨interned, faithful, present⟩ := intern_run ranIntern faithful (by simp [Node.children])
    exact ⟨interned, faithful, .abstraction present⟩
  | parameter target index =>
    intro state new later faithful ran
    obtain ⟨handle, _, ranResolve, ranIntern⟩ := Results.run_bind_eq_ok_iff.mp ran
    obtain ⟨-, rfl⟩ := liftExcept_run.mp ranResolve
    obtain ⟨interned, faithful, present⟩ := intern_run ranIntern faithful (by simp [Node.children])
    exact ⟨interned, faithful, .parameter present⟩
  | quote literal =>
    intro state new later faithful ran
    obtain ⟨interned, faithful, present⟩ := intern_run ran faithful (by simp [Node.children])
    exact ⟨interned, faithful, .quote present⟩
  | continuation => exact gives_throw _

theorem Faithful.cons {handle : Handle} (faithful : Faithful old table imported)
    (present : old.table.get? handle = some node) (translates : Translates table imported node new) :
    Faithful old table ((handle, new) :: imported) where
  wellFormed := faithful.wellFormed
  inRange := by
    intro other found member
    rcases List.mem_cons.mp member with same | before
    · cases same
      exact translates.inRange faithful.inRange
    · exact faithful.inRange other found before
  translates := by
    intro other found member
    rcases List.mem_cons.mp member with same | before
    · cases same
      exact ⟨node, present, translates.mono (Table.extends_refl _) (List.subset_cons_self _ _)
        faithful.inRange⟩
    · obtain ⟨node, present, translates⟩ := faithful.translates other found before
      exact ⟨node, present, translates.mono (Table.extends_refl _) (List.subset_cons_self _ _)
        faithful.inRange⟩

/-- Importing a handle, whether it is remembered or not, imports it by the rules. -/
theorem gives_importBelow (old : Program) (bound : Nat) (handle : Handle) :
    Gives old (importBelow old bound handle) fun new state => (handle, new) ∈ state.imported := by
  induction bound generalizing handle with
  | zero => exact gives_throw _
  | succ bound ih =>
    intro state new later faithful ran
    obtain ⟨_, _, ranGet, ranRest⟩ := Results.run_bind_eq_ok_iff.mp ran
    cases ranGet
    cases remembered : state.imported.lookup handle with
    | some known =>
      rw [remembered] at ranRest
      cases ranRest
      exact ⟨⟨Table.extends_refl _, fun _ inside => inside, rfl, rfl⟩, faithful,
        Results.mem_of_lookup remembered⟩
    | none =>
      rw [remembered] at ranRest
      obtain ⟨node, _, ranNode, ranImport⟩ := Results.run_bind_eq_ok_iff.mp ranRest
      obtain ⟨present, rfl⟩ := liftExcept_run.mp ranNode
      obtain ⟨result, middle, ranImport, ranStore⟩ := Results.run_bind_eq_ok_iff.mp ranImport
      obtain ⟨grown, faithful, translates⟩ :=
        gives_importNode (fun child _ => ih child) _ result middle faithful ranImport
      obtain ⟨_, stored, ranStore, ranReturn⟩ := Results.run_bind_eq_ok_iff.mp ranStore
      obtain rfl := Results.run_modify_eq_ok_iff.mp ranStore
      obtain ⟨rfl, rfl⟩ := Results.run_pure_eq_ok_iff.mp ranReturn
      exact ⟨⟨grown.table, List.subset_cons_of_subset _ grown.imported, grown.labels, grown.kept⟩,
        faithful.cons (Table.get_eq_ok_iff.mp present) translates, List.mem_cons_self⟩

end Nodes

end Simplify

end CpsGraph
