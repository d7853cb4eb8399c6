import CpsGraph.Proofs.InPlaceBuilding
import CpsGraph.Proofs.KnownHandles
import CpsGraph.Proofs.SimplifiedRuns

/-! # Checked requests

A client passes handles as plain numbers. Every request checks the handles that it passes in before it
looks anything up: if one of them has no node, the request fails with the first of those, and if all of
them have nodes, then no lookup fails for want of a node. The programs that requests make are well formed.
-/

namespace CpsGraph.Client

open Results (FailsOnly)

/-! ## The handles of a request -/

/-- The handles that a request passes in. -/
def BuildRequest.handles : BuildRequest → List Handle
  | .int _ | .bool _ | .bottom _ | .parameter .. | .reference _ => []
  | .primitive _ operands => operands
  | .cast source _ => [source]
  | .call callee arguments => callee :: arguments
  | .branch condition onTrue onFalse => [condition, onTrue, onFalse]
  | .define _ _ body _ => [body]

/-- The handles in some pairs. -/
def handlesOf (pairs : List (Handle × Handle)) : List Handle := pairs.flatMap fun pair => [pair.1, pair.2]

/-- The handles that a request passes in. Of the replacements for one node, only the last is used. -/
def Request.handles : Request → List Handle
  | .query (.specialize _ _ _ pairs) => handlesOf (pairs.filter (Substitution.ofPairs pairs).counts)
  | _ => []

/-- An outcome of a request that passes in some handles: if it succeeds they all have nodes, and if it
fails for a handle without a node, then it is the first of them without one. -/
structure Checked {α : Type} (program : Program) (handles : List Handle) (outcome : Except ClientError α) :
    Prop where
  known : ∀ value, outcome = .ok value → ∀ handle ∈ handles, handle < program.size
  refused : ∀ error handle, outcome = .error error → error.unknown? = some handle →
    program.checkHandles handles = .error (.unknownHandle handle)

/-- A step of a request does not fail for an unknown handle. -/
abbrev Answers {α : Type} (step : Except ClientError α) : Prop := FailsOnly (·.unknown? = none) step

section Outcomes

variable {α β : Type} {program : Program} {handles : List Handle}

theorem answers_graph {step : Except GraphError α} (knows : KnowsHandles step) :
    Answers (liftM step) := knows.mapError fun _ unknown => unknown

theorem answers_typing {step : Except TypingError α} (knows : FailsOnly (·.unknown? = none) step) :
    Answers (liftM step) := knows.mapError fun _ unknown => unknown

theorem answers_dot {step : Except DotError α} (knows : FailsOnly (·.unknown? = none) step) :
    Answers (liftM step) := knows.mapError fun _ unknown => unknown

theorem checked_of_answers {outcome : Except ClientError α} (answers : Answers outcome) :
    Checked program [] outcome where
  known _ _ _ member := nomatch member
  refused error handle failure unknown := by
    rw [answers error failure] at unknown
    cases unknown

theorem Checked.bind {step : Except ClientError α} {next : α → Except ClientError β}
    (answers : Answers step) (rest : ∀ value, Checked program handles (next value)) :
    Checked program handles (step >>= next) := by
  cases step with
  | ok value => exact rest value
  | error fault =>
    refine ⟨nofun, fun error handle failure unknown => ?_⟩
    cases failure
    rw [answers fault rfl] at unknown
    cases unknown

/-- A request without handles that makes one step and replies. -/
theorem checked_reply {step : Except ClientError α} (answers : Answers step) (reply : α → β) :
    Checked program [] (do return reply (← step)) := .bind answers fun _ => checked_of_answers (.ok _)

/-- Handles are checked before they are used. -/
theorem checked_of_check {next : Except ClientError β}
    (answers : (∀ handle ∈ handles, handle < program.size) → Answers next) :
    Checked program handles (do program.checkHandles handles; next) := by
  cases check : program.checkHandles handles with
  | ok _ =>
    have passed := Program.lt_size_of_checkHandles check
    refine ⟨fun _ _ => passed, fun error handle failure unknown => ?_⟩
    rw [answers passed error failure] at unknown
    cases unknown
  | error fault =>
    refine ⟨nofun, fun error handle failure unknown => ?_⟩
    obtain ⟨other, -, -, rfl⟩ := Program.exists_of_checkHandles check
    cases failure
    cases unknown
    exact check

end Outcomes

theorem answers_readOperator (text : String) : Answers (readOperator text) := .elim rfl

theorem answers_parseTy (text : String) : Answers (liftM (Ty.parse text)) := answers_graph (.elim rfl)

theorem answers_parseSignature (text : String) : Answers (liftM (Signature.parse text)) :=
  answers_graph (.elim rfl)

theorem knowsHandles_define {program : Program} {body : Handle} (inRange : body < program.size)
    (name : Name) (signature : Signature) (external : Bool) :
    KnowsHandles (program.define name signature body external) := by
  unfold Program.define
  cases program.contains name with
  | true => exact .error rfl
  | false => exact (Table.knowsHandles_register inRange name signature external).bind fun _ _ => .ok _

/-- A request to add something checks its handles. -/
theorem checked_build (program : Program) (request : BuildRequest) :
    Checked program request.handles (request.serve program) := by
  cases request with
  | int value => exact checked_of_answers (.ok _)
  | bool value => exact checked_of_answers (.ok _)
  | parameter name index => exact checked_of_answers (.ok _)
  | reference name => exact checked_of_answers (.ok _)
  | bottom ty => exact checked_reply (answers_parseTy ty) _
  | primitive op operands =>
    exact .bind (answers_readOperator op) fun _ => checked_of_check fun _ => .ok _
  | cast source ty =>
    exact .bind (answers_parseTy ty) fun _ => checked_of_check fun _ => .ok _
  | call callee arguments => exact checked_of_check fun _ => .ok _
  | branch condition onTrue onFalse => exact checked_of_check fun _ => .ok _
  | define name signature body external =>
    refine .bind (answers_parseSignature signature) fun signature => ?_
    refine checked_of_check fun inRange => ?_
    have defines := knowsHandles_define (inRange body List.mem_cons_self) name signature external
    refine (answers_graph defines).bind fun grown _ => ?_
    exact (answers_graph (grown.knowsHandles_resolve name)).bind fun _ _ => .ok _

/-- Checking the handles of pairs one after the other checks them all. -/
theorem forM_checkHandles (program : Program) (pairs : List (Handle × Handle)) :
    (pairs.forM fun pair => (liftM (program.checkHandles [pair.1, pair.2]) : Except ClientError Unit)) =
      liftM (program.checkHandles (handlesOf pairs)) := by
  induction pairs with
  | nil => rfl
  | cons pair pairs ih =>
    change (liftM (program.checkHandles [pair.1, pair.2]) >>= fun _ => pairs.forM _) =
      liftM (program.checkHandles (pair.1 :: pair.2 :: handlesOf pairs))
    rcases Nat.lt_or_ge pair.1 program.size with inRange | outside
    · rw [Program.checkHandles_cons_of_lt inRange, Program.checkHandles_cons_of_lt inRange]
      rcases Nat.lt_or_ge pair.2 program.size with inRange | outside
      · rw [Program.checkHandles_cons_of_lt inRange, Program.checkHandles_cons_of_lt inRange, ← ih]
        rfl
      · rw [Program.checkHandles_cons_of_le outside, Program.checkHandles_cons_of_le outside]
        rfl
    · rw [Program.checkHandles_cons_of_le outside, Program.checkHandles_cons_of_le outside]
      rfl

/-- The replacements that count have nodes if the handles of the pairs that count do. -/
theorem lt_size_of_lookup {program : Program} {pairs : List (Handle × Handle)}
    (inRange : ∀ handle ∈ handlesOf (pairs.filter (Substitution.ofPairs pairs).counts),
      handle < program.size)
    (handle image : Handle) (found : (Substitution.ofPairs pairs).lookup handle = some image) :
    image < program.size := by
  refine inRange image (List.mem_flatMap.mpr ⟨(handle, image), ?_, by simp⟩)
  refine List.mem_filter.mpr ⟨List.mem_reverse.mp (Results.mem_of_lookup found), ?_⟩
  exact beq_iff_eq.mpr found

/-- A query only looks up nodes, labels and parameters that are there. -/
theorem checked_query {program : Program} (wellFormed : program.WellFormed) (asked : Query) :
    Checked program (Request.query asked).handles (asked.serve program) := by
  cases asked with
  | names => exact checked_of_answers (.ok _)
  | externals => exact checked_of_answers (.ok _)
  | quote value => exact checked_of_answers (.ok _)
  | parameterNode name index => exact checked_of_answers (.ok _)
  | parameter name index => exact checked_reply (answers_graph (program.knowsHandles_parameter name index)) _
  | validate => exact checked_reply (answers_graph (Program.knowsHandles_validate wellFormed)) _
  | typeCheck => exact checked_reply (answers_typing (Program.typeCheck_known wellFormed)) _
  | simplify => exact checked_reply (answers_graph (Program.knowsHandles_simplify wellFormed)) _
  | scope entry => exact checked_reply (answers_graph (Program.knowsHandles_scope wellFormed entry)) _
  | callGraph => exact checked_reply (answers_graph (Program.knowsHandles_callGraph wellFormed)) _
  | toDot => exact checked_reply (answers_dot (Program.toDot_known wellFormed)) _
  | callGraphDot => exact checked_reply (answers_graph (Program.knowsHandles_callGraph wellFormed)) _
  | specialize entry newName signature pairs =>
    refine .bind (answers_parseSignature signature) fun signature => ?_
    -- Only the pairs that count are checked, and only those are used.
    change Checked program _ ((pairs.filter _).forM (fun pair =>
      liftM (program.checkHandles [pair.1, pair.2])) >>= fun _ => _)
    rw [forM_checkHandles]
    refine checked_of_check fun inRange => ?_
    have specializes := Program.knowsHandles_specialize wellFormed (lt_size_of_lookup inRange)
      entry newName signature
    exact (answers_graph specializes).bind fun _ _ => .ok _
  | redirectCalls old new mapping =>
    exact checked_reply (answers_graph (Program.knowsHandles_redirectCalls wellFormed old new mapping)) _
  | withExternal name external =>
    have marks : KnowsHandles (program.withExternal name external) :=
      (program.knowsHandles_resolve name).bind fun _ _ => .ok _
    exact checked_reply (answers_graph marks) _

/-- A run only looks up nodes. -/
theorem answers_runInts {program : Program} (wellFormed : program.WellFormed) {entry haltOn : Name}
    {arguments : List Int64} {limit : Option UInt64} {outcome : Except ClientError (List Int64)}
    (ran : runInts program entry arguments haltOn limit = some outcome) : Answers outcome := by
  unfold runInts at ran
  have closes := program.evaluates_closure haltOn
  cases closed : program.closure haltOn with
  | error error =>
    rw [closed] at ran closes
    cases ran
    exact .error (EvalError.unknown?_of_isRaised (closes error rfl))
  | ok last =>
    rw [closed] at ran
    obtain ⟨ended, ranOn, same⟩ := Option.map_eq_some_iff.mp ran
    have evaluates := Program.evaluates_run wellFormed ranOn
    cases ended with
    | error error =>
      cases same
      exact .error (evaluates error rfl)
    | ok halt =>
      cases same
      exact .mapM fun value _ => .elim rfl

theorem checked_request {program : Program} (wellFormed : program.WellFormed) (request : Request)
    {outcome : Except ClientError (Answer × Program)} (served : request.serve program = some outcome) :
    Checked program request.handles outcome := by
  cases request with
  | query asked =>
    cases served
    exact checked_query wellFormed asked
  | run entry arguments haltOn limit =>
    obtain ⟨ended, ran, rfl⟩ := Option.map_eq_some_iff.mp served
    exact checked_reply (answers_runInts wellFormed ran) _

/-! ## The programs that requests make -/

/-- The programs in an answer. -/
def Answer.programs : Answer → List Program
  | .program made => [made]
  | _ => []

theorem eq_ok_of_lift {α : Type} {step : Except GraphError α} {value : α}
    (success : (liftM step : Except ClientError α) = .ok value) : step = .ok value := by
  cases step with
  | ok other =>
    cases success
    rfl
  | error fault => cases success

section Making

variable {program : Program} (wellFormed : program.WellFormed)

include wellFormed

theorem wellFormed_intern {node : Node} (inRange : ∀ child ∈ node.children, child < program.size) :
    (program.intern node).2.WellFormed :=
  wellFormed.grow (program.table.extends_intern node) (wellFormed.table.intern inRange) rfl

/-- A request to add something keeps a program well formed. -/
theorem wellFormed_build {request : BuildRequest} {handle : Handle} {grown : Program}
    (served : request.serve program = .ok (handle, grown)) : grown.WellFormed := by
  have inRange := (checked_build program request).known _ served
  cases request with
  | int value | bool value | parameter name index | reference name =>
    cases served
    exact wellFormed_intern wellFormed nofun
  | bottom ty =>
    obtain ⟨_, -, served⟩ := Results.bind_eq_ok_iff.mp served
    cases served
    exact wellFormed_intern wellFormed nofun
  | primitive op operands =>
    obtain ⟨_, -, served⟩ := Results.bind_eq_ok_iff.mp served
    obtain ⟨_, -, served⟩ := Results.bind_eq_ok_iff.mp served
    cases served
    exact wellFormed_intern wellFormed inRange
  | cast source ty =>
    obtain ⟨_, -, served⟩ := Results.bind_eq_ok_iff.mp served
    obtain ⟨_, -, served⟩ := Results.bind_eq_ok_iff.mp served
    cases served
    exact wellFormed_intern wellFormed inRange
  | call callee arguments | branch condition onTrue onFalse =>
    obtain ⟨_, -, served⟩ := Results.bind_eq_ok_iff.mp served
    cases served
    exact wellFormed_intern wellFormed inRange
  | define name signature body external =>
    obtain ⟨_, -, served⟩ := Results.bind_eq_ok_iff.mp served
    obtain ⟨_, -, served⟩ := Results.bind_eq_ok_iff.mp served
    obtain ⟨defined, success, served⟩ := Results.bind_eq_ok_iff.mp served
    obtain ⟨_, -, served⟩ := Results.bind_eq_ok_iff.mp served
    cases served
    exact wellFormed.define (eq_ok_of_lift success)

/-- A request to a program keeps it well formed and answers with well-formed programs. -/
theorem wellFormed_query {asked : Query} {answer : Answer} {later : Program}
    (served : asked.serve program = .ok (answer, later)) :
    later.WellFormed ∧ ∀ made ∈ answer.programs, made.WellFormed := by
  have inRange := (checked_query wellFormed asked).known _ served
  cases asked with
  | names | externals =>
    cases served
    exact ⟨wellFormed, nofun⟩
  | quote value | parameterNode name index =>
    cases served
    exact ⟨wellFormed_intern wellFormed nofun, nofun⟩
  | parameter name index | validate | typeCheck | scope entry | callGraph | toDot | callGraphDot =>
    obtain ⟨_, -, served⟩ := Results.bind_eq_ok_iff.mp served
    cases served
    exact ⟨wellFormed, nofun⟩
  | simplify =>
    obtain ⟨simplified, success, served⟩ := Results.bind_eq_ok_iff.mp served
    cases served
    exact ⟨wellFormed, List.forall_mem_singleton.mpr (Program.wellFormed_simplify (eq_ok_of_lift success))⟩
  | specialize entry newName signature pairs =>
    obtain ⟨signature, -, served⟩ := Results.bind_eq_ok_iff.mp served
    obtain ⟨_, -, served⟩ := Results.bind_eq_ok_iff.mp served
    obtain ⟨specialized, success, served⟩ := Results.bind_eq_ok_iff.mp served
    cases served
    refine ⟨wellFormed, List.forall_mem_singleton.mpr ?_⟩
    rcases Program.specialize_cases_of_targets wellFormed (lt_size_of_lookup inRange) entry newName
      signature with ⟨_, _, -, same, extended⟩ | ⟨_, failed, -⟩
    · rw [eq_ok_of_lift success] at same
      cases same
      exact extended.wellFormed
    · rw [eq_ok_of_lift success] at failed
      cases failed
  | redirectCalls old new mapping =>
    obtain ⟨redirected, success, served⟩ := Results.bind_eq_ok_iff.mp served
    cases served
    exact ⟨wellFormed, List.forall_mem_singleton.mpr (wellFormed.redirectCalls (eq_ok_of_lift success)).1⟩
  | withExternal name external =>
    obtain ⟨marked, success, served⟩ := Results.bind_eq_ok_iff.mp served
    cases served
    exact ⟨wellFormed, List.forall_mem_singleton.mpr (wellFormed.withExternal (eq_ok_of_lift success)).1⟩

theorem wellFormed_request {request : Request} {answer : Answer} {later : Program}
    (served : request.serve program = some (.ok (answer, later))) :
    later.WellFormed ∧ ∀ made ∈ answer.programs, made.WellFormed := by
  cases request with
  | query asked => exact wellFormed_query wellFormed (Option.some.inj served)
  | run entry arguments haltOn limit =>
    obtain ⟨_, -, same⟩ := Option.map_eq_some_iff.mp served
    obtain ⟨_, -, same⟩ := Results.bind_eq_ok_iff.mp same
    cases same
    exact ⟨wellFormed, nofun⟩

end Making

end CpsGraph.Client
