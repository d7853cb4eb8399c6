import CpsGraph.Proofs.ImportPlans
import Mathlib.Algebra.BigOperators.Group.List.Basic
import Mathlib.Algebra.Group.Prod
import Mathlib.Tactic.Abel

/-! # What importing counts

Importing a node visits the children that it demands, and counts an expression that it folds and a
branch that it collapses. A visit of a handle either imports it, once, or finds it imported. So the
counters say no more than how many labels and which nodes were imported, in whatever order that was:
the visits, folds and collapses that the imported nodes do not account for are the visits of the
bodies of the labels. Importing succeeds if nothing that is demanded has a fault.
-/

namespace CpsGraph

/-- Counts of visits, folded expressions and collapsed branches. -/
abbrev Tally := Int × Int × Int

namespace Tally

def visit : Tally := (1, 0, 0)
def fold : Tally := (0, 1, 0)
def collapse : Tally := (0, 0, 1)

end Tally

/-- What carrying out a plan counts, apart from the visits. -/
def Plan.tally : Plan → Tally
  | .rebuild => 0
  | .literal _ | .child _ => .fold
  | .jump .. => .collapse

/-- What importing a node counts, apart from what its children do. -/
def Node.expense (known : Handle → Option Literal) (node : Node) : Tally :=
  (node.demands known).length • Tally.visit + (node.plan known).tally

def Table.expense (table : Table) (handle : Handle) : Tally :=
  (table.get? handle).elim 0 (Node.expense table.constant?)

theorem Plan.Parallel.tally_eq {Related : Handle → Handle → Prop} {plan other : Plan}
    (parallel : plan.Parallel Related other) : plan.tally = other.tally := by
  cases parallel <;> rfl

theorem Table.Alike.expense_eq {left right : Table} {x y : Handle} (alike : left.Alike right x y)
    (wellFormed : left.WellFormed) (otherWellFormed : right.WellFormed) :
    left.expense x = right.expense y := by
  obtain ⟨node, other, atX, atY, parallel⟩ := alike.parallel
  have agree (child other : Handle) (alikeChild : left.Alike right child other) :=
    alikeChild.constant?_eq wellFormed otherWellFormed
  simp only [Table.expense, atX, atY, Option.elim_some, Node.expense,
    (parallel.plan agree).tally_eq, (parallel.demands agree).length_eq]

namespace Simplify

/-- The handles that are imported. -/
def State.keys (state : State) : List Handle := state.imported.map Prod.fst

/-- What was counted. -/
def State.tally (state : State) : Tally :=
  (state.memoHits + state.imported.length, state.folded, state.collapsed)

/-- What was counted but is not accounted for by the imported nodes. -/
def State.surplus (old : Program) (state : State) : Tally :=
  state.tally - (state.keys.map old.table.expense).sum

/-- Importing counted as much more, and imported each handle once and only some of those inside. -/
structure Advances (old : Program) (Inside : Handle → Prop) (gain : Tally) (before after : State) :
    Prop where
  surplus : after.surplus old = before.surplus old + gain
  inside : ∀ handle ∈ after.keys, handle ∈ before.keys ∨ Inside handle
  distinct : before.keys.Nodup → after.keys.Nodup

/-- From a state, an action succeeds and counts as much. -/
def Spends {α : Type} (old : Program) (Inside : Handle → Prop) (gain : Tally) (action : ImportM α)
    (state : State) : Prop :=
  ∃ result later, action.run state = .ok result later ∧ Advances old Inside gain state later

variable {old : Program} {Inside Wider : Handle → Prop} {gain more : Tally}
  {state middle later : State} {α β : Type}

theorem Advances.trans (second : Advances old Inside more middle later)
    (first : Advances old Inside gain state middle) : Advances old Inside (gain + more) state later where
  surplus := by rw [second.surplus, first.surplus, add_assoc]
  inside handle isKey := (second.inside handle isKey).elim (first.inside handle) .inr
  distinct nodup := second.distinct (first.distinct nodup)

theorem Advances.mono (advances : Advances old Inside gain state later)
    (wider : ∀ handle, Inside handle → Wider handle) : Advances old Wider gain state later where
  surplus := advances.surplus
  inside handle isKey := (advances.inside handle isKey).imp id (wider handle)
  distinct := advances.distinct

/-- Counting alone. -/
theorem Advances.counting (same : later.imported = state.imported)
    (counted : later.tally = state.tally + gain) : Advances old Inside gain state later where
  surplus := by
    rw [State.surplus, State.surplus, counted, State.keys, State.keys, same]
    abel
  inside handle isKey := .inl (by rwa [State.keys, same] at isKey)
  distinct nodup := by rwa [State.keys, same]

namespace Spends

theorem mono {action : ImportM α} (spends : Spends old Inside gain action state)
    (wider : ∀ handle, Inside handle → Wider handle) : Spends old Wider gain action state := by
  obtain ⟨result, later, ran, advances⟩ := spends
  exact ⟨result, later, ran, advances.mono wider⟩

theorem of_run_eq {action other : ImportM α} (spends : Spends old Inside gain other state)
    (same : action.run state = other.run state) : Spends old Inside gain action state := by
  rwa [Spends, same]

theorem bind {action : ImportM α} {next : α → ImportM β} (first : Spends old Inside gain action state)
    (second : ∀ value middle, action.run state = .ok value middle →
      Spends old Inside more (next value) middle) :
    Spends old Inside (gain + more) (action >>= next) state := by
  obtain ⟨value, middle, ran, advances⟩ := first
  obtain ⟨result, later, ranNext, advancesNext⟩ := second value middle ran
  exact ⟨result, later, Results.run_bind_eq_ok_iff.mpr ⟨value, middle, ran, ranNext⟩,
    advancesNext.trans advances⟩

/-- A step that leaves the state as it is counts nothing. -/
theorem after {action : ImportM α} {next : α → ImportM β} {value : α}
    (ran : action.run state = .ok value state) (second : Spends old Inside gain (next value) state) :
    Spends old Inside gain (action >>= next) state := by
  obtain ⟨result, later, ranNext, advances⟩ := second
  exact ⟨result, later, Results.run_bind_eq_ok_iff.mpr ⟨value, state, ran, ranNext⟩, advances⟩

theorem pure (value : α) : Spends old Inside 0 (Pure.pure value : ImportM α) state :=
  ⟨value, state, rfl, .counting rfl (add_zero _).symm⟩

theorem interning (node : Node) : Spends old Inside 0 (intern node) state :=
  ⟨_, _, rfl, .counting rfl (add_zero _).symm⟩

theorem reporting (event : Event) : Spends old Inside 0 (report event) state :=
  ⟨_, _, rfl, .counting rfl (add_zero _).symm⟩

theorem countingFold : Spends old Inside .fold countFold state :=
  ⟨_, _, rfl, .counting rfl (by simp [State.tally, Tally.fold])⟩

end Spends

section Operators

variable (op : Operator) (operands : List Handle)

theorem applyIdentity?_run_two (left right : Handle) (state : State) :
    (applyIdentity? op [left, right]).run state =
      ((op.identity? (state.program.table.known? left) (state.program.table.known? right)).elim
        (return none) fun reduction => do
          countFold
          return some (← reduce left right reduction) : ImportM (Option Handle)).run state := by
  simp only [applyIdentity?, EStateM.run_bind, known?_run]
  cases op.identity? _ _ <;> rfl

theorem spends_reduce (left right : Handle) (reduction : Reduction) :
    Spends old Inside .fold (do countFold; reduce left right reduction : ImportM Handle) state := by
  rw [← add_zero Tally.fold]
  refine Spends.countingFold.bind fun _ _ _ => ?_
  cases reduction with
  | left => exact .pure left
  | right => exact .pure right
  | constant literal => exact .interning _

/-- Reducing an operator or keeping it counts what the plan for it says. -/
theorem spends_reduceOrKeep :
    Spends old Inside (op.identityPlan state.program.table.known? operands).tally (do
      match ← applyIdentity? op operands with
      | some handle => return handle
      | none => intern (.primitive op operands) : ImportM Handle) state := by
  have keeping : Spends old Inside 0 (intern (.primitive op operands)) state := .interning _
  rcases operands with _ | ⟨left, _ | ⟨right, _ | ⟨third, rest⟩⟩⟩
  · exact keeping.of_run_eq rfl
  · exact keeping.of_run_eq rfl
  · have applied := applyIdentity?_run_two op left right state
    rw [Operator.identityPlan]
    generalize op.identity? (state.program.table.known? left) (state.program.table.known? right) =
      identity at applied ⊢
    cases identity with
    | none =>
      refine keeping.of_run_eq ?_
      rw [EStateM.run_bind, applied]
      rfl
    | some reduction =>
      have reducing : Spends old Inside .fold
          (do countFold; reduce left right reduction : ImportM Handle) state :=
        spends_reduce left right reduction
      cases reduction <;> exact reducing.of_run_eq (by rw [EStateM.run_bind, applied]; rfl)
  · exact keeping.of_run_eq rfl

/-- Importing an operator counts what the plan for it says. -/
theorem spends_importOperator :
    Spends old Inside (op.plan state.program.table.known? operands).tally
      (importOperator op operands) state := by
  refine .after (mapM_known?_run operands state) ?_
  rw [Operator.plan, Operator.fold?]
  cases (operands.map state.program.table.known?).mapM id with
  | none => exact spends_reduceOrKeep op operands
  | some literals =>
    dsimp only
    rw [Option.bind_some, foldOperator?]
    cases op.evaluate literals with
    | error reason =>
      have reporting : Spends old Inside (0 + (op.identityPlan state.program.table.known? operands).tally)
          (do
            report (.foldSkipped op reason)
            match ← applyIdentity? op operands with
            | some handle => return handle
            | none => intern (.primitive op operands) : ImportM Handle) state := by
        refine (Spends.reporting _).bind fun _ middle ran => ?_
        cases ran
        exact spends_reduceOrKeep op operands
      rw [zero_add] at reporting
      exact reporting.of_run_eq rfl
    | ok literal =>
      have folding : Spends old Inside (.fold + 0)
          (do countFold; intern (.quote literal) : ImportM Handle) state :=
        Spends.countingFold.bind fun _ _ _ => .interning _
      rw [add_zero] at folding
      exact folding.of_run_eq rfl

end Operators

section Nodes

variable {bound : Nat} {handle : Handle} {node : Node}

/-- From wherever it is done, importing a handle succeeds and counts as one visit. -/
def Visits (old : Program) (Inside : Handle → Prop) (bound : Nat) (handle : Handle) : Prop :=
  ∀ state, Faithful old state.program.table state.imported →
    Spends old Inside .visit (importBelow old bound handle) state

theorem spends_mapM {handles : List Handle}
    (visits : ∀ child ∈ handles, Visits old Inside bound child)
    (faithful : Faithful old state.program.table state.imported) :
    Spends old Inside (handles.length • Tally.visit) (handles.mapM (importBelow old bound)) state := by
  induction handles generalizing state with
  | nil =>
    rw [List.length_nil, zero_nsmul]
    exact .pure []
  | cons child handles ih =>
    rw [List.mapM_cons, List.length_cons, succ_nsmul', ← add_zero (handles.length • _)]
    refine (visits child List.mem_cons_self state faithful).bind fun new middle ran => ?_
    obtain ⟨-, faithful, -⟩ := gives_importBelow old bound child state new middle faithful ran
    refine (ih (fun other member => visits other (List.mem_cons_of_mem _ member)) faithful).bind ?_
    exact fun rest _ _ => .pure (new :: rest)

/-- Importing a branch visits the target of a known condition, or both. -/
theorem spends_importNode_branch (wellFormed : old.table.WellFormed)
    {condition onTrue onFalse : Handle}
    (visits : ∀ child ∈ (Node.branch [condition, onTrue, onFalse]).demands old.table.constant?,
      Visits old Inside bound child)
    (faithful : Faithful old state.program.table state.imported) :
    Spends old Inside ((Node.branch [condition, onTrue, onFalse]).expense old.table.constant?)
      (importNode old (importBelow old bound) (.branch [condition, onTrue, onFalse])) state := by
  rw [Node.expense]
  rw [Node.demands, Node.plan] at visits ⊢
  generalize decided : (old.table.constant? condition).bind Literal.bool? = taken at visits ⊢
  cases taken with
  | some taken =>
    have counted : (2 : Nat) • Tally.visit + .collapse = .visit + (.visit + (.collapse + (0 + 0))) := by
      abel
    change Spends old Inside ((2 : Nat) • .visit + .collapse) _ state
    rw [counted]
    refine (visits condition (by simp [Plan.visits]) state faithful).bind
      fun newCondition middle ran => ?_
    obtain ⟨-, faithful, atCondition⟩ :=
      gives_importBelow old bound condition state newCondition middle faithful ran
    refine .after (known?_run newCondition middle) ?_
    rw [faithful.known?_eq wellFormed atCondition, decided]
    refine (visits _ (by simp [Plan.visits]) middle faithful).bind fun newCallee called _ => ?_
    refine Spends.bind ⟨(), _, rfl, .counting rfl ?_⟩ fun _ _ _ => ?_
    · simp [State.tally, Tally.collapse]
    · exact (Spends.reporting _).bind fun _ _ _ => .interning _
  | none =>
    have counted : (3 : Nat) • Tally.visit + 0 = .visit + (.visit + (.visit + 0)) := by
      abel
    change Spends old Inside ((3 : Nat) • .visit + 0) _ state
    rw [counted]
    refine (visits condition (by simp [Plan.visits, Node.children]) state faithful).bind
      fun newCondition middle ran => ?_
    obtain ⟨-, faithful, atCondition⟩ :=
      gives_importBelow old bound condition state newCondition middle faithful ran
    refine .after (known?_run newCondition middle) ?_
    rw [faithful.known?_eq wellFormed atCondition, decided]
    refine (visits onTrue (by simp [Plan.visits, Node.children]) middle faithful).bind
      fun newTrue afterTrue ranTrue => ?_
    obtain ⟨-, faithful, -⟩ :=
      gives_importBelow old bound onTrue middle newTrue afterTrue faithful ranTrue
    refine (visits onFalse (by simp [Plan.visits, Node.children]) afterTrue faithful).bind ?_
    exact fun _ _ _ => .interning _

/-- Importing a node without a fault succeeds and counts what the node costs, if visits of what it
demands do. -/
theorem spends_importNode (wellFormed : old.table.WellFormed) (unfaulty : old.Unfaulty node)
    (visits : ∀ child ∈ node.demands old.table.constant?, Visits old Inside bound child)
    (faithful : Faithful old state.program.table state.imported) :
    Spends old Inside (node.expense old.table.constant?)
      (importNode old (importBelow old bound) node) state := by
  cases node with
  | call callee arguments =>
    change Spends old Inside ((callee :: arguments).length • Tally.visit + 0) _ state
    rw [List.length_cons, succ_nsmul', add_assoc]
    refine (visits callee List.mem_cons_self state faithful).bind fun newCallee middle ran => ?_
    obtain ⟨-, faithful, -⟩ := gives_importBelow old bound callee state newCallee middle faithful ran
    refine (spends_mapM (fun child member => visits child (List.mem_cons_of_mem _ member))
      faithful).bind ?_
    exact fun _ _ _ => .interning _
  | branch arguments =>
    obtain ⟨condition, onTrue, onFalse, rfl⟩ :=
      List.length_eq_three.mp (Program.unfaulty_branch.mp unfaulty)
    exact spends_importNode_branch wellFormed visits faithful
  | primitive op operands =>
    rw [Node.expense, Node.demands_primitive, Node.plan]
    rw [Node.demands_primitive] at visits
    refine (spends_mapM visits faithful).bind fun newOperands middle ran => ?_
    obtain ⟨-, faithful, atOperands⟩ := gives_mapM
      (fun child _ => gives_importBelow old bound child) state newOperands middle faithful ran
    have plans := atOperands.plan_parallel
      (fun child _ newChild => faithful.known?_eq wellFormed) op
    rw [plans.tally_eq]
    exact spends_importOperator op newOperands
  | cast source ty =>
    rw [Node.expense, Node.demands_cast, Node.plan, List.length_singleton, one_nsmul]
    rw [Node.demands_cast] at visits
    refine (visits source List.mem_cons_self state faithful).bind fun newSource middle ran => ?_
    obtain ⟨-, faithful, atSource⟩ :=
      gives_importBelow old bound source state newSource middle faithful ran
    refine .after (known?_run newSource middle) ?_
    rw [faithful.known?_eq wellFormed atSource]
    cases (old.table.constant? source).bind fun literal => (literal.cast ty).toOption with
    | none => exact .interning _
    | some literal =>
      change Spends old Inside .fold _ middle
      rw [← add_zero Tally.fold]
      exact Spends.countingFold.bind fun _ _ _ => .interning _
  | abstraction target =>
    obtain ⟨label, found⟩ := Program.mem_names_iff.mp (Program.unfaulty_abstraction.mp unfaulty)
    refine .after (liftExcept_run.mpr ⟨Program.resolve_eq_ok_iff.mpr found, rfl⟩) ?_
    exact .interning _
  | parameter target index =>
    obtain ⟨handle, known⟩ := Program.unfaulty_parameter.mp unfaulty
    exact .after (liftExcept_run.mpr ⟨known, rfl⟩) (.interning _)
  | quote literal => exact .interning _
  | continuation => exact absurd unfaulty Program.not_unfaulty_continuation

/-- Importing a new handle accounts for what its node costs, and leaves one visit. -/
theorem Advances.import {new : Handle} (present : old.table.get? handle = some node)
    (fresh : handle ∉ middle.keys) (inside : Inside handle)
    (advances : Advances old Inside (node.expense old.table.constant?) state middle) :
    Advances old Inside .visit state
      { middle with imported := (handle, new) :: middle.imported } where
  surplus := by
    have cost : old.table.expense handle = node.expense old.table.constant? := by
      rw [Table.expense, present, Option.elim_some]
    have counted : State.tally { middle with imported := (handle, new) :: middle.imported } =
        middle.tally + .visit := by
      simp [State.tally, Tally.visit, add_assoc]
    have keys : State.keys { middle with imported := (handle, new) :: middle.imported } =
        handle :: middle.keys := rfl
    calc State.surplus old _ = middle.surplus old - node.expense old.table.constant? + .visit := by
          rw [State.surplus, State.surplus, counted, keys, List.map_cons, List.sum_cons, cost]
          abel
      _ = state.surplus old + .visit := by rw [advances.surplus, add_sub_cancel_right]
  inside other isKey := by
    rcases List.mem_cons.mp isKey with rfl | isKey
    · exact .inr inside
    · exact advances.inside other isKey
  distinct nodup := List.nodup_cons.mpr ⟨fresh, advances.distinct nodup⟩

/-- Handles whose nodes are there and have no fault, with all that they demand. -/
def Sustains (old : Program) (Holds : Handle → Prop) : Prop :=
  ∀ handle, Holds handle → ∃ node, old.table.get? handle = some node ∧ old.Unfaulty node ∧
    ∀ child ∈ node.demands old.table.constant?, Holds child

/-- A handle without a faulty part that is demanded can be imported from wherever, and that counts as
one visit. -/
theorem visits_importBelow {Holds : Handle → Prop} (wellFormed : old.table.WellFormed)
    (sustains : Sustains old Holds) (inBound : handle < bound) (holds : Holds handle) :
    Visits old (fun part => part ≤ handle ∧ Holds part) bound handle := by
  induction bound generalizing handle with
  | zero => exact absurd inBound (Nat.not_lt_zero _)
  | succ bound ih =>
    intro state faithful
    unfold importBelow
    apply Spends.after (rfl : (get : ImportM State).run state = .ok state state)
    cases remembered : state.imported.lookup handle with
    | some new =>
      refine ⟨new, _, rfl, .counting rfl ?_⟩
      simp [State.tally, Tally.visit, add_right_comm]
    | none =>
      obtain ⟨node, present, unfaulty, demanded⟩ := sustains handle holds
      refine .after (liftExcept_run.mpr ⟨Table.get_eq_ok_iff.mpr present, rfl⟩) ?_
      have older {child : Handle} (isDemanded : child ∈ node.demands old.table.constant?) :
          child < handle := wellFormed.child_lt present (node.demands_subset _ isDemanded)
      have visits : ∀ child ∈ node.demands old.table.constant?,
          Visits old (fun part => part < handle ∧ Holds part) bound child := by
        intro child isDemanded state faithful
        refine (ih (Nat.lt_of_lt_of_le (older isDemanded) (Nat.le_of_lt_succ inBound))
          (demanded child isDemanded) state faithful).mono ?_
        exact fun part inside => ⟨Nat.lt_of_le_of_lt inside.1 (older isDemanded), inside.2⟩
      obtain ⟨new, middle, ran, advances⟩ := spends_importNode wellFormed unfaulty visits faithful
      -- All that was imported on the way is older, so the handle itself is still new.
      have fresh : handle ∉ middle.keys := by
        intro isKey
        rcases advances.inside handle isKey with before | inside
        · obtain ⟨pair, isPair, isHandle⟩ := List.mem_map.mp before
          have differs := List.lookup_eq_none_iff.mp remembered pair isPair
          simp [isHandle] at differs
        · exact Nat.lt_irrefl handle inside.1
      refine ⟨new, _, Results.run_bind_eq_ok_iff.mpr ⟨new, middle, ran, rfl⟩, ?_⟩
      exact (advances.mono fun part inside => ⟨Nat.le_of_lt inside.1, inside.2⟩).import present fresh
        ⟨Nat.le_refl handle, holds⟩

end Nodes

section Labels

/-- Importing needs no more than some labels and handles, and these can all be imported: the external
labels and whatever an imported body mentions are among the labels, and nothing that their bodies
demand has a fault. -/
structure Viable (old : Program) (Live : Name → Prop) (Holds : Handle → Prop) : Prop where
  sustains : Sustains old Holds
  externals : ∀ label ∈ old.externals, Live label.name
  bodies : ∀ name, Live name → ∃ label, old.find? name = some label ∧ Holds label.body
  mentions : ∀ name label new other (state : State), Live name → old.find? name = some label →
    Faithful old state.program.table state.imported → (label.body, new) ∈ state.imported →
      state.program.table.Mentions new other → Live other

/-- What was counted is accounted for by the imported nodes and one visit for each label. -/
structure Accounted (old : Program) (Holds : Handle → Prop) (state : State) : Prop where
  surplus : state.surplus old = state.program.labels.length • Tally.visit
  inside : ∀ handle ∈ state.keys, Holds handle
  distinct : state.keys.Nodup

variable {Live : Name → Prop} {Holds : Handle → Prop} {name : Name} {label : Label}
  {queue done : List Name}

theorem accounted_empty (old : Program) (Holds : Handle → Prop) : Accounted old Holds {} where
  surplus := rfl
  inside := nofun
  distinct := .nil

theorem Accounted.exists_importLabel (accounted : Accounted old Holds state)
    (wellFormed : old.WellFormed) (sustains : Sustains old Holds)
    (importing : Importing old (name :: queue) done state) (fresh : name ∉ done)
    (found : old.find? name = some label) (holds : Holds label.body) :
    ∃ mentioned later, (importLabel old label).run state = .ok mentioned later ∧
      Accounted old Holds later := by
  obtain ⟨body, middle, ran, advances⟩ := visits_importBelow wellFormed.table sustains
    (Nat.lt_succ_self label.body) holds state importing.faithful
  obtain ⟨mentioned, program, ranLabel⟩ := Simplify.exists_importLabel importing fresh found
    (wellFormed.labels label (Program.mem_of_find? found)).body ran
  obtain ⟨newLabel, appended, -⟩ := exists_newLabel importing found ranLabel
  refine ⟨mentioned, _, ranLabel, ?_, ?_, advances.distinct accounted.distinct⟩
  · rw [appended, List.length_append, List.length_singleton, succ_nsmul, ← accounted.surplus]
    exact advances.surplus
  · intro handle isKey
    exact (advances.inside handle isKey).elim (accounted.inside handle) And.right

variable (wellFormed : old.WellFormed) (viable : Viable old Live Holds)

include wellFormed viable

/-- Importing viable labels succeeds, and what it counts is accounted for. -/
theorem Viable.exists_importLabels {rounds : Nat} (importing : Importing old queue done state)
    (accounted : Accounted old Holds state) (queued : ∀ name ∈ queue, Live name)
    (live : ∀ name ∈ done, Live name) :
    ∃ later, (importLabels old rounds queue done).run state = .ok () later ∧
      Accounted old Holds later ∧ ∀ name ∈ later.program.names, Live name := by
  have named {queue done : List Name} {state : State} (importing : Importing old queue done state)
      (live : ∀ name ∈ done, Live name) : ∀ name ∈ state.program.names, Live name := by
    intro name isName
    rw [importing.names, List.mem_reverse] at isName
    exact live name isName
  induction rounds generalizing queue done state with
  | zero => exact ⟨state, rfl, accounted, named importing live⟩
  | succ rounds ih =>
    rw [importLabels]
    have kept := importing.requeue fun name => Results.mem_dropWhile_or done
    cases left : queue.dropWhile (· ∈ done) with
    | nil => exact ⟨state, rfl, accounted, named importing live⟩
    | cons name rest =>
      rw [left] at kept
      have waiting : ∀ other ∈ name :: rest, Live other := by
        intro other member
        rw [← left] at member
        exact queued other ((List.dropWhile_sublist _).subset member)
      have isLive := waiting name List.mem_cons_self
      obtain ⟨label, found, holds⟩ := viable.bodies name isLive
      obtain ⟨mentioned, middle, ran, accounted⟩ := accounted.exists_importLabel wellFormed
        viable.sustains kept (Search.not_mem_of_dropWhile_eq_cons left) found holds
      have step := importLabel_run kept found ran
      obtain ⟨body, pair, sound⟩ := mentions_of_importLabel kept found ran
      have queued : ∀ other ∈ rest ++ mentioned, Live other := by
        intro other member
        rcases List.mem_append.mp member with before | listed
        · exact waiting other (List.mem_cons_of_mem _ before)
        · exact viable.mentions name label body other middle isLive found step.faithful pair
            (sound other listed)
      obtain ⟨later, ranRest, result⟩ := ih step accounted queued
        (List.forall_mem_cons.mpr ⟨isLive, live⟩)
      refine ⟨later, ?_, result⟩
      refine Results.run_bind_eq_ok_iff.mpr ⟨label, state, ?_, ?_⟩
      · exact liftExcept_run.mpr ⟨Program.resolve_eq_ok_iff.mpr found, rfl⟩
      · exact Results.run_bind_eq_ok_iff.mpr ⟨mentioned, middle, ran, ranRest⟩

theorem Viable.exists_importProgram :
    ∃ later, (importProgram old).run {} = .ok () later ∧ Accounted old Holds later ∧
      ∀ name ∈ later.program.names, Live name := by
  apply viable.exists_importLabels wellFormed (importing_empty old _) (accounted_empty old Holds)
  · intro name member
    obtain ⟨label, isExternal, rfl⟩ := List.mem_map.mp member
    exact viable.externals label isExternal
  · exact nofun

end Labels

end Simplify

end CpsGraph
