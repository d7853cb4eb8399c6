import CpsGraph.Builder
import CpsGraph.Proofs.ImportedLabels
import CpsGraph.Proofs.RunPaths
import CpsGraph.Proofs.Within

/-! # Simplified programs run in lockstep

A step of a program from a label that simplification kept, in an environment whose closures name
only kept labels, is also a step of the simplified program, with the same result. So the two
programs run in lockstep until the run halts. The identity that replaces a remainder by one with
its dividend is not right, so it must not have been used.
-/

namespace CpsGraph

/-- What a reduction leaves of two literals. -/
def Reduction.literal (left right : Literal) : Reduction → Literal
  | .left => left
  | .right => right
  | .constant literal => literal

open Program in
/-- Where an operator can be evaluated, an identity leaves the same literal, except for
remainders. -/
theorem Operator.identity?_sound {op : Operator} {knownLeft knownRight : Option Literal}
    {reduction : Reduction} {left right result : Literal}
    (identity : op.identity? knownLeft knownRight = some reduction) (notRemainder : op ≠ .mod)
    (atLeft : ∀ literal, knownLeft = some literal → left = literal)
    (atRight : ∀ literal, knownRight = some literal → right = literal)
    (evaluated : op.evaluate [left, right] = .ok result) :
    result = reduction.literal left right := by
  cases op with
  | mul =>
    simp only [evaluate, Results.bind_eq_ok_iff, asInt_eq_ok_iff] at evaluated
    obtain ⟨a, rfl, b, rfl, evaluated⟩ := evaluated
    cases evaluated
    simp only [identity?] at identity
    split_ifs at identity with zero one one
    · cases identity
      rcases zero with zero | zero
      · cases atLeft _ zero
        exact congrArg _ Int64.zero_mul
      · cases atRight _ zero
        exact congrArg _ Int64.mul_zero
    · cases identity
      cases atRight _ one
      exact congrArg _ (Int64.mul_one a)
    · cases identity
      cases atLeft _ one
      exact congrArg _ (Int64.one_mul b)
  | div =>
    simp only [evaluate, Results.bind_eq_ok_iff, asInt_eq_ok_iff] at evaluated
    obtain ⟨a, rfl, b, rfl, evaluated⟩ := evaluated
    simp only [identity?] at identity
    split_ifs at identity with one
    cases identity
    cases atRight _ one
    cases evaluated
    exact congrArg _ Int64.div_one
  | mod => exact absurd rfl notRemainder
  | and =>
    simp only [evaluate, Results.bind_eq_ok_iff, asBool_eq_ok_iff] at evaluated
    obtain ⟨a, rfl, evaluated⟩ := evaluated
    simp only [identity?] at identity
    split_ifs at identity with no
    cases identity
    rcases no with no | no
    · cases atLeft _ no
      cases evaluated
      rfl
    · cases atRight _ no
      cases a <;> cases evaluated <;> rfl
  | or =>
    simp only [evaluate, Results.bind_eq_ok_iff, asBool_eq_ok_iff] at evaluated
    obtain ⟨a, rfl, evaluated⟩ := evaluated
    simp only [identity?] at identity
    split_ifs at identity with yes
    cases identity
    rcases yes with yes | yes
    · cases atLeft _ yes
      cases evaluated
      rfl
    · cases atRight _ yes
      cases a <;> cases evaluated <;> rfl
  | _ => cases identity

/-- Whether a node is a constant. -/
def Node.isQuote : Node → Bool
  | .quote _ => true
  | _ => false

theorem Node.isQuote_iff {node : Node} : node.isQuote = true ↔ ∃ literal, node = .quote literal := by
  cases node <;> simp [isQuote]

namespace Simplify

/-- Importing never met a remainder by the literal one of something that is not a literal. -/
def AvoidsRemainderByOne (old : Program) (state : State) : Prop :=
  ∀ node ∈ state.imported, ∀ dividend ∈ state.imported, ∀ divisor ∈ state.imported,
    old.table.get? node.1 = some (.primitive .mod [dividend.1, divisor.1]) →
      state.program.table.get? divisor.2 = some (.quote (.int 1)) →
        ∃ quote ∈ state.program.table.get? dividend.2, quote.isQuote

instance (old : Program) (state : State) : Decidable (AvoidsRemainderByOne old state) :=
  inferInstanceAs (Decidable (∀ node ∈ state.imported, _))

/-- An imported handle has every value that the old one has, provided that all names in it are
labels. -/
def Agrees (old : Program) (state : State) (env : Env) (handle new : Handle) : Prop :=
  (∀ name, state.program.table.Mentions new name → name ∈ state.program.names) →
    ∀ value, old.value env handle = .ok value → state.program.value env new = .ok value

section Values

variable {old : Program} {state : State} {all : List Name} {env : Env} {handle new : Handle}
  {node : Node}

/-- A known literal is the value that the old handle had. -/
theorem Agrees.eq_of_quote {literal found : Literal} (agrees : Agrees old state env handle new)
    (wellFormed : state.program.table.WellFormed)
    (present : state.program.table.get? new = some (.quote found))
    (success : old.value env handle = .ok (.literal literal)) : literal = found := by
  have same := agrees (fun _ mentions => absurd mentions (Table.not_mentions_quote wellFormed present))
    _ success
  rw [Program.value_quote wellFormed present] at same
  cases same
  rfl

theorem Agrees.eq_of_known {literal found : Literal} (agrees : Agrees old state env handle new)
    (wellFormed : state.program.table.WellFormed)
    (known : state.program.table.known? new = some found)
    (success : old.value env handle = .ok (.literal literal)) : literal = found :=
  agrees.eq_of_quote wellFormed (Table.known?_eq_some_iff.mp known).1 success

/-- If all imported operands are known, they are the values of the old operands. -/
theorem literals_eq_of_known {operands newOperands : List Handle} {literals found : List Literal}
    (atOperands : MapsAll state.imported operands newOperands)
    (values : List.Forall₂ (fun operand literal => old.value env operand = .ok (.literal literal))
      operands literals)
    (agree : ∀ operand ∈ operands, ∀ new, (operand, new) ∈ state.imported →
      Agrees old state env operand new)
    (wellFormed : state.program.table.WellFormed)
    (known : newOperands.map state.program.table.known? = found.map some) : literals = found := by
  have same : List.Forall₂ (fun new literal => ∀ known, state.program.table.known? new = some known →
      literal = known) newOperands literals :=
    Results.forall₂_of_common atOperands values fun operand new literal member _ pair success known
      atNew => (agree operand member new pair).eq_of_known wellFormed atNew success
  clear atOperands values agree
  induction same generalizing found with
  | nil =>
    cases found with
    | nil => rfl
    | cons => cases known
  | cons first _ ih =>
    cases found with
    | nil => cases known
    | cons head tail =>
      rw [List.map_cons, List.map_cons, List.cons.injEq] at known
      rw [first head known.1, ih known.2]

/-- An identity leaves a handle with the value of the operator. -/
theorem agrees_of_reduced (wellFormed : old.WellFormed) (avoids : AvoidsRemainderByOne old state)
    (finished : Importing old [] all state) {op : Operator} {left right newLeft newRight : Handle}
    {reduction : Reduction} (pair : (handle, new) ∈ state.imported)
    (present : old.table.get? handle = some (.primitive op [left, right]))
    (atLeft : (left, newLeft) ∈ state.imported) (atRight : (right, newRight) ∈ state.imported)
    (unfoldable : Unfoldable state.program.table op [newLeft, newRight])
    (identity : op.identity? (state.program.table.known? newLeft)
      (state.program.table.known? newRight) = some reduction)
    (leaves : Leaves state.program.table newLeft newRight new reduction)
    (agreeLeft : Agrees old state env left newLeft)
    (agreeRight : Agrees old state env right newRight) : Agrees old state env handle new := by
  intro kept value success
  have closed := finished.wellFormed.table
  obtain ⟨literals, result, values, evaluated, rfl⟩ :=
    (Program.value_primitive_iff wellFormed.table present).mp success
  obtain _ | ⟨leftValue, _ | ⟨rightValue, _ | _⟩⟩ := values
  rename_i leftLiteral rightLiteral
  have knownLeft := fun literal (known : state.program.table.known? newLeft = some literal) =>
    agreeLeft.eq_of_known closed known leftValue
  have knownRight := fun literal (known : state.program.table.known? newRight = some literal) =>
    agreeRight.eq_of_known closed known rightValue
  have notRemainder : op ≠ .mod := by
    rintro rfl
    simp only [Operator.identity?] at identity
    split_ifs at identity with one
    obtain ⟨quote, here, isQuote⟩ := avoids _ pair _ atLeft _ atRight present
      (Table.known?_eq_some_iff.mp one).1
    obtain ⟨dividend, rfl⟩ := Node.isQuote_iff.mp isQuote
    obtain rfl := agreeLeft.eq_of_quote closed here leftValue
    obtain rfl := knownRight _ one
    -- An integer dividend is known as well, so the remainder would have been folded.
    obtain ⟨number, isInt, -⟩ := Results.bind_eq_ok_iff.mp evaluated
    obtain rfl := Program.asInt_eq_ok_iff.mp isInt
    refine unfoldable [.int number, .int 1] ?_ result evaluated
    simp only [List.map_cons, List.map_nil, one, Table.known?_eq_some_iff.mpr ⟨here, rfl⟩]
  have same := Operator.identity?_sound identity notRemainder knownLeft knownRight evaluated
  cases reduction with
  | left =>
    cases leaves
    rw [same]
    exact agreeLeft kept _ leftValue
  | right =>
    cases leaves
    rw [same]
    exact agreeRight kept _ rightValue
  | constant literal =>
    rw [same]
    exact Program.value_quote closed leaves

/-- A kept label has the parameters that it had before. -/
theorem exists_parameter_of_old (wellFormed : old.WellFormed) (finished : Importing old [] all state)
    {name : Name} {index : Nat} {oldHandle : Handle} (kept : name ∈ state.program.names)
    (oldParameter : old.parameter name index = .ok oldHandle) :
    ∃ newHandle, state.program.parameter name index = .ok newHandle := by
  obtain ⟨oldLabel, foundOld, inRange⟩ := wellFormed.exists_parameter_iff.mp ⟨oldHandle, oldParameter⟩
  obtain ⟨label, found, signature⟩ := finished.exists_find? foundOld kept
  rw [Label.arity, ← signature] at inRange
  exact finished.wellFormed.exists_parameter_iff.mpr ⟨label, found, inRange⟩

/-- A handle that follows one of the rules has the value of the old one, if the parts have. -/
theorem agrees_of_translates (wellFormed : old.WellFormed) (avoids : AvoidsRemainderByOne old state)
    (finished : Importing old [] all state) (pair : (handle, new) ∈ state.imported)
    (present : old.table.get? handle = some node)
    (translates : Translates state.program.table state.imported node new)
    (agree : ∀ child ∈ node.children, ∀ newChild, (child, newChild) ∈ state.imported →
      Agrees old state env child newChild) : Agrees old state env handle new := by
  have closed := finished.wellFormed.table
  intro kept value success
  have isExpression := Program.isExpression_of_value wellFormed.table present success
  -- Names in a part are names in the node, so they are labels as well.
  have keptIn {newNode : Node} (atNew : state.program.table.get? new = some newNode) {child : Handle}
      (member : child ∈ newNode.children) (name : Name)
      (mentions : state.program.table.Mentions child name) : name ∈ state.program.names :=
    kept name (mentions.of_child closed atNew member)
  cases translates with
  | call => cases isExpression
  | collapsed => cases isExpression
  | branch => cases isExpression
  | folded atOperands known evaluated atNew =>
    obtain ⟨literals, result, values, expected, rfl⟩ :=
      (Program.value_primitive_iff wellFormed.table present).mp success
    obtain rfl := literals_eq_of_known atOperands values agree closed known
    rw [evaluated] at expected
    cases expected
    exact Program.value_quote closed atNew
  | reduced atLeft atRight unfoldable identity leaves =>
    exact agrees_of_reduced wellFormed avoids finished pair present atLeft atRight unfoldable identity
      leaves (agree _ (by simp [Node.children]) _ atLeft) (agree _ (by simp [Node.children]) _ atRight)
      kept value success
  | primitive atOperands unfoldable irreducible atNew =>
    obtain ⟨literals, result, values, evaluated, rfl⟩ :=
      (Program.value_primitive_iff wellFormed.table present).mp success
    refine (Program.value_primitive_iff closed atNew).mpr ⟨literals, result, ?_, evaluated, rfl⟩
    refine Results.forall₂_of_common atOperands values ?_
    intro operand newOperand literal member newMember atOperand operandValue
    exact agree operand member newOperand atOperand (keptIn atNew newMember) _ operandValue
  | converted atSource known cast atNew =>
    obtain ⟨literal, result, sourceValue, expected, rfl⟩ :=
      (Program.value_cast_iff wellFormed.table present).mp success
    obtain rfl := (agree _ (by simp [Node.children]) _ atSource).eq_of_known closed known sourceValue
    rw [cast] at expected
    cases expected
    exact Program.value_quote closed atNew
  | cast atSource unknown atNew =>
    obtain ⟨literal, result, sourceValue, cast, rfl⟩ :=
      (Program.value_cast_iff wellFormed.table present).mp success
    have newValue := agree _ (by simp [Node.children]) _ atSource
      (keptIn atNew (by simp [Node.children])) _ sourceValue
    exact (Program.value_cast_iff closed atNew).mpr ⟨literal, result, newValue, cast, rfl⟩
  | abstraction atNew =>
    obtain ⟨-, rfl⟩ := (Program.value_abstraction_iff wellFormed.table present).mp success
    exact (Program.value_abstraction_iff closed atNew).mpr
      ⟨kept _ (Table.mentions_abstraction atNew), rfl⟩
  | parameter atNew =>
    rw [Program.value_parameter wellFormed.table present] at success
    obtain ⟨oldHandle, arguments, oldParameter, atName, atIndex⟩ :=
      Program.parameterValue_eq_ok_iff.mp success
    obtain ⟨newHandle, newParameter⟩ := exists_parameter_of_old wellFormed finished
      (kept _ (Table.mentions_parameter atNew)) oldParameter
    rw [Program.value_parameter closed atNew]
    exact Program.parameterValue_eq_ok_iff.mpr ⟨newHandle, arguments, newParameter, atName, atIndex⟩
  | quote atNew =>
    rw [Program.value_quote wellFormed.table present] at success
    cases success
    exact Program.value_quote closed atNew

/-- Every imported handle has the value of the old one. -/
theorem agrees_of_imported (wellFormed : old.WellFormed) (avoids : AvoidsRemainderByOne old state)
    (finished : Importing old [] all state) (pair : (handle, new) ∈ state.imported) :
    Agrees old state env handle new := by
  induction handle using Nat.strongRecOn generalizing new with
  | ind handle ih =>
    obtain ⟨node, present, translates⟩ := finished.faithful.translates handle new pair
    refine agrees_of_translates wellFormed avoids finished pair present translates ?_
    exact fun child member newChild atChild =>
      ih child (wellFormed.table.child_lt present member) atChild

end Values

section Steps

variable {old : Program} {state : State} {all : List Name} {env : Env}
  (wellFormed : old.WellFormed) (avoids : AvoidsRemainderByOne old state)
  (finished : Importing old [] all state)

include finished in
/-- A kept label is entered as before. -/
theorem enter_of_old {continuation : Name} {arguments : List Value} {next : Configuration}
    (kept : continuation ∈ state.program.names)
    (entered : old.enter continuation env arguments = .ok next) :
    state.program.enter continuation env arguments = .ok next := by
  obtain ⟨oldLabel, foundOld, fits, rfl⟩ := Program.enter_eq_ok_iff.mp entered
  obtain ⟨label, found, signature⟩ := finished.exists_find? foundOld kept
  rw [Label.arity, ← signature] at fits
  exact Program.enter_eq_ok_iff.mpr ⟨label, found, fits, rfl⟩

include wellFormed avoids finished in
/-- An imported body jumps as the old one does. -/
theorem jumps_of_old {Bound : Name → Prop} {body newBody : Handle} {node : Node}
    {next : Configuration} (pair : (body, newBody) ∈ state.imported)
    (kept : ∀ name, state.program.table.Mentions newBody name → name ∈ state.program.names)
    (within : env.Within (· ∈ state.program.names) Bound)
    (present : old.table.get? body = some node) (jumps : old.Jumps env node next) :
    ∃ newNode, state.program.table.get? newBody = some newNode ∧
      state.program.Jumps env newNode next := by
  have closed := finished.wellFormed.table
  obtain ⟨_, presentAgain, translates⟩ := finished.faithful.translates body newBody pair
  rw [present] at presentAgain
  cases presentAgain
  have agree {handle new : Handle} (atHandle : (handle, new) ∈ state.imported) :
      Agrees old state env handle new := agrees_of_imported wellFormed avoids finished atHandle
  have keptIn {newNode : Node} (atNew : state.program.table.get? newBody = some newNode)
      {child : Handle} (member : child ∈ newNode.children) (name : Name)
      (mentions : state.program.table.Mentions child name) : name ∈ state.program.names :=
    kept name (mentions.of_child closed atNew member)
  cases jumps with
  | call atCallee atArguments entered =>
    cases translates with
    | call calleePair argumentPairs atNew =>
      have newCallee := agree calleePair (keptIn atNew List.mem_cons_self) _ atCallee
      have named := (Env.within_of_closure (Program.value_within closed within newCallee)).1
      refine ⟨_, atNew, .call newCallee ?_ (enter_of_old finished named entered)⟩
      refine Results.forall₂_of_common argumentPairs atArguments ?_
      intro argument newArgument value _ member atArgument success
      exact agree atArgument (keptIn atNew (List.mem_cons_of_mem _ member)) _ success
  | @branch _ onTrue onFalse taken _ _ _ atCondition atTarget entered =>
    cases translates with
    | collapsed conditionPair decided targetPair atNew =>
      have same := (agree conditionPair).eq_of_known closed decided atCondition
      cases same
      have newCallee := agree targetPair (keptIn atNew List.mem_cons_self) _ atTarget
      have named := (Env.within_of_closure (Program.value_within closed within newCallee)).1
      exact ⟨_, atNew, .call newCallee .nil (enter_of_old finished named entered)⟩
    | @branch _ _ _ _ newTrue newFalse _ conditionPair undecided truePair falsePair atNew =>
      have newCondition :=
        agree conditionPair (keptIn atNew (by simp [Node.children])) _ atCondition
      have targetPair : (if taken then onTrue else onFalse, if taken then newTrue else newFalse) ∈
          state.imported := by
        cases taken with
        | true => exact truePair
        | false => exact falsePair
      have newTarget := agree targetPair
        (keptIn atNew (by cases taken <;> simp [Node.children])) _ atTarget
      have named := (Env.within_of_closure (Program.value_within closed within newTarget)).1
      exact ⟨_, atNew, .branch newCondition newTarget (enter_of_old finished named entered)⟩

include wellFormed avoids finished in
/-- A step from a kept label is a step of the simplified program. -/
theorem step_of_old {Bound : Name → Prop} {config next : Configuration}
    (within : config.Within (· ∈ state.program.names) Bound)
    (success : old.step config = .ok next) : state.program.step config = .ok next := by
  obtain ⟨label, original, found, foundOld, -, pair, mentioned⟩ := finished.find? within.named
  obtain ⟨oldLabel, node, foundAgain, present, jumps⟩ :=
    (Program.step_eq_ok_iff wellFormed.table).mp success
  rw [foundOld] at foundAgain
  cases foundAgain
  obtain ⟨newNode, newPresent, newJumps⟩ :=
    jumps_of_old wellFormed avoids finished pair mentioned within.env present jumps
  exact (Program.step_eq_ok_iff finished.wellFormed.table).mpr
    ⟨label, newNode, found, newPresent, newJumps⟩

include wellFormed avoids finished in
/-- A run from a kept label is a run of the simplified program. -/
theorem runFor_of_old {config : Configuration} {halts : List Name} {remaining steps : Nat}
    {halt : Halt} (within : config.Within (· ∈ state.program.names) fun _ => True)
    (halted : old.runFor halts remaining steps config = .ok halt) :
    state.program.runFor halts remaining steps config = .ok halt := by
  refine Program.runFor_related old state.program
    (fun left right => left = right ∧ left.Within (· ∈ state.program.names) fun _ => True)
    (fun outcome other => ∀ halt, outcome = .ok halt → other = .ok halt)
    ?_ ?_ ?_ nofun ⟨rfl, within⟩ remaining steps halt halted
  · rintro config _ ⟨rfl, within⟩ -
    cases success : old.step config with
    | error error => exact .leftFails nofun
    | ok next =>
      have newStep := step_of_old wellFormed avoids finished within success
      rw [newStep]
      exact .both ⟨rfl, Program.step_within finished.wellFormed.table newStep within.env
        fun _ _ => trivial⟩
  · rintro config _ ⟨rfl, -⟩
    exact Iff.rfl
  · rintro config _ steps ⟨rfl, -⟩ -
    exact fun halt halted => halted

end Steps

end Simplify

namespace Samples

open Build

/-- A program with something to fold, to reduce, to collapse and to drop:

* `f(x, k)` branches on `cast(1, bool)` to `g` or `h`;
* `g` is `k(x * (7 % 1 + 1))`, and `h` is `k(7 % 1)`. -/
def reducible : Program :=
  let steps : BuildM Unit := do
    let x ← parameter "f" 0
    let k ← parameter "f" 1
    let one ← int 1
    let remainder ← primitive .mod [← int 7, one]
    let product ← primitive .mul [x, ← primitive .add [remainder, one]]
    let yes ← cast one .bool
    let _ ← define "f" [.int, .fn [.int]] (← branch yes (← reference "g") (← reference "h")) true
    let _ ← define "g" [] (← call k [product])
    let _ ← define "h" [] (← call k [remainder])
    let _ ← define "ret" [.int] (← call (← reference "ret") [← parameter "ret" 0]) true
  (Build.run steps).toOption.getD {}

end Samples

namespace Program

/-- The state in which importing a program ends. -/
def importState (program : Program) : Simplify.State :=
  match (Simplify.importProgram program).run {} with
  | .ok _ state => state
  | .error _ state => state

theorem simplify_eq_ok {program simplified : Program} (success : program.simplify = .ok simplified) :
    program.importState.program = simplified ∧
      (Simplify.importProgram program).run {} = .ok () program.importState := by
  unfold simplify simplifyStats simplifyReport at success
  unfold importState
  cases ran : (Simplify.importProgram program).run {} with
  | error fault state =>
    rw [ran] at success
    cases success
  | ok result state =>
    rw [ran] at success
    cases success
    exact ⟨rfl, rfl⟩

theorem wellFormed_simplify {program simplified : Program}
    (success : program.simplify = .ok simplified) : simplified.WellFormed := by
  obtain ⟨rfl, ran⟩ := simplify_eq_ok success
  obtain ⟨all, finished, -⟩ := Simplify.importProgram_run ran
  exact finished.wellFormed

/-- Simplification keeps runs in lockstep. From a label that it kept, in an environment whose
closures name only kept labels, each step is a step of the simplified program with the same result,
which is again of this kind. So a run that halts is a run of the simplified program. -/
theorem simplify_lockstep {program simplified : Program} (wellFormed : program.WellFormed)
    (success : program.simplify = .ok simplified)
    (avoids : Simplify.AvoidsRemainderByOne program program.importState) :
    (∀ config next, config.Within (· ∈ simplified.names) (fun _ => True) →
      program.step config = .ok next →
        simplified.step config = .ok next ∧ next.Within (· ∈ simplified.names) (fun _ => True)) ∧
    (∀ entry ∈ simplified.names, ∀ arguments : List Value,
      (∀ argument ∈ arguments, argument.Within (· ∈ simplified.names) (fun _ => True)) →
      ∀ halts limit halt, program.run entry arguments halts limit = some (.ok halt) →
        simplified.run entry arguments halts limit = some (.ok halt)) := by
  obtain ⟨rfl, ran⟩ := simplify_eq_ok success
  obtain ⟨all, finished, -⟩ := Simplify.importProgram_run ran
  have closed := finished.wellFormed.table
  constructor
  · intro config next within success
    have newStep := Simplify.step_of_old wellFormed avoids finished within success
    exact ⟨newStep, step_within closed newStep within.env fun _ _ => trivial⟩
  · intro entry kept arguments within halts limit halt halted
    rw [run_eq_halt_iff, runWithin, start_eq_enter, Results.bind_eq_ok_iff] at halted ⊢
    obtain ⟨⟨config, entered, ran⟩, counted⟩ := halted
    have newEntered := Simplify.enter_of_old finished kept entered
    refine ⟨⟨config, newEntered, ?_⟩, counted⟩
    have start := enter_within newEntered Env.within_nil (fun _ _ => trivial) within
    exact Simplify.runFor_of_old wellFormed avoids finished start ran

/-- A run of the reducible program halts, so the run of its simplified form does. -/
theorem simplify_lockstep_reducible :
    let program := Samples.reducible
    let simplified := program.importState.program
    let arguments := [.literal (.int 21), .closure "ret" []]
    program.WellFormed ∧ program.simplify = .ok simplified ∧
    Simplify.AvoidsRemainderByOne program program.importState ∧ simplified.names = ["f", "ret", "g"] ∧
    simplified.run "f" arguments ["ret"] none = some (.ok ⟨"ret", [.literal (.int 21)], 2⟩) := by
  intro program simplified arguments
  obtain ⟨wellFormed, success, avoids, kept, ran⟩ :
      program.WellFormed ∧ program.simplify = .ok simplified ∧
      Simplify.AvoidsRemainderByOne program program.importState ∧
      simplified.names = ["f", "ret", "g"] ∧
      program.runWithin "f" arguments ["ret"] stepCeiling =
        .ok ⟨"ret", [.literal (.int 21)], 2⟩ := by decide +kernel
  refine ⟨wellFormed, success, avoids, kept, ?_⟩
  refine (simplify_lockstep wellFormed success avoids).2 "f" (by simp [kept]) arguments ?_ ["ret"]
    none _ (run_eq_halt_iff.mpr ⟨ran, by decide⟩)
  intro argument member
  rcases List.mem_pair.mp member with rfl | rfl
  · exact .literal _
  · exact .closure (by simp [kept]) nofun nofun

end Program

end CpsGraph
