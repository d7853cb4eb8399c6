import CpsGraph.Proofs.DirectEvaluation
import CpsGraph.Proofs.Parts
import CpsGraph.Proofs.RunPaths
import CpsGraph.Proofs.TypedPrograms
import CpsGraph.Samples

/-! # Well-typed programs do not go wrong

A run of a well-typed program without unknown constants, from a label with well-typed arguments,
fails only by a division by zero, at a parameter of a label that was not entered yet, or at its step
limit. A closure is well typed if its environment is: wherever it has values for the parameters of a
label, they have the types of these parameters.
-/

namespace CpsGraph

/-- The failures that types do not exclude: a division by zero, and a parameter of a label that was
not entered yet. -/
inductive EvalError.Excusable : EvalError → Prop
  | divisionByZero : Excusable .divisionByZero
  | unboundParameter (name : Name) (index : Nat) : Excusable (.unboundParameter name index)

/-- A step gives a result with the property, or fails in a way that types do not exclude. -/
def Safe {α : Type} (Post : α → Prop) : Except EvalError α → Prop
  | .ok value => Post value
  | .error error => error.Excusable

namespace Safe

variable {α β : Type} {Post : α → Prop} {Last : β → Prop}

theorem bind {first : Except EvalError α} {second : α → Except EvalError β} (safe : Safe Post first)
    (next : ∀ value, Post value → Safe Last (second value)) : Safe Last (first >>= second) := by
  cases first with
  | error error => exact safe
  | ok value => exact next value safe

/-- Treating the elements of a list that goes with another one gives results that go with it. -/
theorem mapM {γ : Type} {act : α → Except EvalError β} {Expects : α → γ → Prop}
    {Gets : β → γ → Prop} {elements : List α} {others : List γ}
    (related : List.Forall₂ Expects elements others)
    (each : ∀ element other, element ∈ elements → Expects element other →
      Safe (Gets · other) (act element)) :
    Safe (List.Forall₂ Gets · others) (elements.mapM act) := by
  induction related with
  | nil => exact .nil
  | cons first _ ih =>
    rw [List.mapM_cons]
    refine (each _ _ List.mem_cons_self first).bind fun result atFirst => ?_
    refine (ih fun element other member => each element other (List.mem_cons_of_mem _ member)).bind
      fun results atRest => ?_
    exact .cons atFirst atRest

end Safe

/-- A literal is a known one of a type. -/
structure Literal.HasTy (literal : Literal) (ty : Ty) : Prop where
  known : literal.isKnown = true
  ty : literal.ty = ty

namespace Literal.HasTy

variable {literal : Literal}

theorem int_iff : literal.HasTy .int ↔ ∃ value, literal = .int value := by
  constructor
  · rintro ⟨known, ty⟩
    cases literal with
    | int value => exact ⟨value, rfl⟩
    | bottom => cases known
    | bool => cases ty
  · rintro ⟨value, rfl⟩
    exact ⟨rfl, rfl⟩

theorem bool_iff : literal.HasTy .bool ↔ ∃ value, literal = .bool value := by
  constructor
  · rintro ⟨known, ty⟩
    cases literal with
    | bool value => exact ⟨value, rfl⟩
    | bottom => cases known
    | int => cases ty
  · rintro ⟨value, rfl⟩
    exact ⟨rfl, rfl⟩

theorem not_fn {params : Signature} : ¬ literal.HasTy (.fn params) := by
  rintro ⟨known, ty⟩
  cases literal with
  | bottom => cases known
  | int => cases ty
  | bool => cases ty

theorem exists_two_ints {literals : List Literal} (count : literals.length = 2)
    (typed : ∀ literal ∈ literals, literal.HasTy .int) : ∃ a b, literals = [.int a, .int b] := by
  obtain ⟨first, second, rfl⟩ := List.length_eq_two.mp count
  obtain ⟨a, rfl⟩ := int_iff.mp (typed first (by simp))
  obtain ⟨b, rfl⟩ := int_iff.mp (typed second (by simp))
  exact ⟨a, b, rfl⟩

theorem exists_two_bools {literals : List Literal} (count : literals.length = 2)
    (typed : ∀ literal ∈ literals, literal.HasTy .bool) : ∃ a b, literals = [.bool a, .bool b] := by
  obtain ⟨first, second, rfl⟩ := List.length_eq_two.mp count
  obtain ⟨a, rfl⟩ := bool_iff.mp (typed first (by simp))
  obtain ⟨b, rfl⟩ := bool_iff.mp (typed second (by simp))
  exact ⟨a, b, rfl⟩

end Literal.HasTy

/-- An operator on as many literals of the right type as it takes gives one of its result type, or
divides by zero. -/
theorem Operator.evaluate_safe (op : Operator) {literals : List Literal}
    (arity : literals.length = op.arity) (typed : ∀ literal ∈ literals, literal.HasTy op.operandTy) :
    Safe (·.HasTy op.resultTy) (op.evaluate literals) := by
  cases op with
  | not =>
    obtain ⟨first, rfl⟩ := List.length_eq_one_iff.mp arity
    obtain ⟨a, rfl⟩ := Literal.HasTy.bool_iff.mp (typed first (by simp))
    exact ⟨rfl, rfl⟩
  | and =>
    obtain ⟨a, b, rfl⟩ := Literal.HasTy.exists_two_bools arity typed
    cases a <;> exact ⟨rfl, rfl⟩
  | or =>
    obtain ⟨a, b, rfl⟩ := Literal.HasTy.exists_two_bools arity typed
    cases a <;> exact ⟨rfl, rfl⟩
  | div =>
    obtain ⟨a, b, rfl⟩ := Literal.HasTy.exists_two_ints arity typed
    change Safe _ (if b = 0 then throw .divisionByZero else return Literal.int (a / b))
    split_ifs
    · exact .divisionByZero
    · exact ⟨rfl, rfl⟩
  | mod =>
    obtain ⟨a, b, rfl⟩ := Literal.HasTy.exists_two_ints arity typed
    change Safe _ (if b = 0 then throw .divisionByZero else return Literal.int (a % b))
    split_ifs
    · exact .divisionByZero
    · exact ⟨rfl, rfl⟩
  | _ =>
    obtain ⟨a, b, rfl⟩ := Literal.HasTy.exists_two_ints arity typed
    exact ⟨rfl, rfl⟩

/-- A known literal of a castable type can be converted. -/
theorem Literal.cast_safe {literal : Literal} {actual ty : Ty} (typed : literal.HasTy actual)
    (castable : actual.castable ty = true) : Safe (·.HasTy ty) (literal.cast ty) := by
  cases actual with
  | int =>
    obtain ⟨value, rfl⟩ := HasTy.int_iff.mp typed
    cases ty with
    | bool => exact ⟨rfl, rfl⟩
    | _ => cases castable
  | bool =>
    obtain ⟨value, rfl⟩ := HasTy.bool_iff.mp typed
    cases ty with
    | int => exact ⟨rfl, rfl⟩
    | _ => cases castable
  | fn => cases castable

/-- Values of a type: known literals, and closures of labels with that signature. Wherever the
environment of a closure has values for a label, there is one of the right type for each parameter.
What it may have under other names is given by `Stray`. -/
inductive Value.HasTy (program : Program) (Stray : Name → List Value → Prop) : Value → Ty → Prop
  | literal {literal : Literal} {ty : Ty} (typed : literal.HasTy ty) :
      HasTy program Stray (.literal literal) ty
  | closure {continuation : Name} {env : Env} {label : Label}
      (found : program.find? continuation = some label)
      (count : ∀ name target values, env.get? name = some values →
        program.find? name = some target → values.length = target.arity)
      (typed : ∀ name target values, env.get? name = some values →
        program.find? name = some target → ∀ (index : Nat) value ty, values[index]? = some value →
          target.signature[index]? = some ty → HasTy program Stray value ty)
      (stray : ∀ name values, env.get? name = some values → program.find? name = none →
        Stray name values) :
      HasTy program Stray (.closure continuation env) (.fn label.signature)

/-- Wherever an environment has values for a label, there is one of the right type for each
parameter. -/
structure Env.Typed (program : Program) (Stray : Name → List Value → Prop) (env : Env) : Prop where
  values : ∀ name target values, env.get? name = some values → program.find? name = some target →
    List.Forall₂ (Value.HasTy program Stray) values target.signature
  stray : ∀ name values, env.get? name = some values → program.find? name = none →
    Stray name values

section Environments

variable {program : Program} {Stray : Name → List Value → Prop} {env : Env} {name : Name}
  {label : Label} {arguments : List Value}

theorem Env.typed_nil : Env.Typed program Stray [] := ⟨nofun, nofun⟩

/-- The closure of a label in a well-typed environment is well typed. -/
theorem Value.closure_hasTy (found : program.find? name = some label)
    (typed : env.Typed program Stray) :
    (Value.closure name env).HasTy program Stray (.fn label.signature) := by
  refine .closure found ?_ ?_ typed.stray
  · intro other target values bound isLabel
    exact (typed.values other target values bound isLabel).length_eq
  · intro other target values bound isLabel index value ty atIndex hasTy
    obtain ⟨_, same, valueTy⟩ :=
      Results.exists_right_of_getElem? (typed.values other target values bound isLabel) atIndex
    rw [hasTy] at same
    cases same
    exact valueTy

/-- A value of function type is the closure of a label in a well-typed environment. -/
theorem Value.HasTy.exists_closure {value : Value} {params : Signature}
    (typed : value.HasTy program Stray (.fn params)) :
    ∃ name env label, value = .closure name env ∧ program.find? name = some label ∧
      label.signature = params ∧ Env.Typed program Stray env := by
  cases typed with
  | literal typed => exact absurd typed Literal.HasTy.not_fn
  | @closure name env label found count typed stray =>
    refine ⟨name, env, label, rfl, found, rfl, ?_, stray⟩
    intro other target values bound isLabel
    refine Results.forall₂_of_getElem? (count other target values bound isLabel) ?_
    exact typed other target values bound isLabel

theorem Value.HasTy.exists_literal {value : Value} {ty : Ty} (typed : value.HasTy program Stray ty)
    (ground : ∀ params, ty ≠ .fn params) : ∃ literal, value = .literal literal ∧ literal.HasTy ty := by
  cases typed with
  | literal typed => exact ⟨_, rfl, typed⟩
  | closure => exact absurd rfl (ground _)

/-- Entering a label with well-typed arguments keeps the environment well typed. -/
theorem Env.Typed.set (typed : env.Typed program Stray) (found : program.find? name = some label)
    (arguments_hasTy : List.Forall₂ (Value.HasTy program Stray) arguments label.signature) :
    (env.set name arguments).Typed program Stray := by
  constructor
  · intro other target values bound isLabel
    rw [Env.get?_set] at bound
    split_ifs at bound with same
    · cases bound
      rw [same, found] at isLabel
      cases isLabel
      exact arguments_hasTy
    · exact typed.values other target values bound isLabel
  · intro other values bound notLabel
    rw [Env.get?_set] at bound
    split_ifs at bound with same
    · rw [same, found] at notLabel
      cases notLabel
    · exact typed.stray other values bound notLabel

end Environments

/-- Whether a node is an unknown constant. -/
def Node.isBottom : Node → Bool
  | .quote (.bottom _) => true
  | _ => false

namespace Program

/-- No part of a node is an unknown constant. -/
def NoBottom (program : Program) (handle : Handle) : Prop :=
  ∀ part ∈ program.table.parts handle, ∀ node ∈ program.table.get? part, node.isBottom = false

/-- No body of a label contains an unknown constant. -/
def BottomFree (program : Program) : Prop := ∀ label ∈ program.labels, program.NoBottom label.body

instance (program : Program) (handle : Handle) : Decidable (program.NoBottom handle) :=
  inferInstanceAs (Decidable (∀ part ∈ program.table.parts handle, _))

instance (program : Program) : Decidable program.BottomFree :=
  inferInstanceAs (Decidable (∀ label ∈ program.labels, _))

variable {program : Program} {Stray : Name → List Value → Prop} {env : Env} {handle : Handle}
  {node : Node}

theorem NoBottom.child (known : program.NoBottom handle) (wellFormed : program.WellFormed)
    (present : program.table.get? handle = some node) {child : Handle}
    (member : child ∈ node.children) : program.NoBottom child :=
  fun part inside => known part (Table.mem_parts_of_child wellFormed.table present member inside)

/-- The value of a parameter of a label has its type, if the environment has one. -/
theorem parameterValue_safe (wellFormed : program.WellFormed) (envTyped : env.Typed program Stray)
    {name : Name} {index : Nat} {label : Label} {ty : Ty} (found : program.find? name = some label)
    (atIndex : label.signature[index]? = some ty) :
    Safe (·.HasTy program Stray ty) (program.parameterValue env name index) := by
  have inRange : index < label.arity := (List.getElem?_eq_some_iff.mp atIndex).1
  obtain ⟨handle, known⟩ := wellFormed.exists_parameter_iff.mpr ⟨label, found, inRange⟩
  cases bound : (env.get? name).bind (·[index]?) with
  | none =>
    have fails : program.parameterValue env name index = .error (.unboundParameter name index) := by
      rw [parameterValue, known, bound]
      rfl
    rw [fails]
    exact .unboundParameter name index
  | some value =>
    obtain ⟨arguments, atName, atValue⟩ := Option.bind_eq_some_iff.mp bound
    rw [parameterValue_eq_ok_iff.mpr ⟨handle, arguments, known, atName, atValue⟩]
    obtain ⟨_, same, valueTy⟩ :=
      Results.exists_right_of_getElem? (envTyped.values name label arguments atName found) atValue
    rw [atIndex] at same
    cases same
    exact valueTy

/-- The value of a well-typed expression has its type. -/
theorem value_safe (wellFormed : program.WellFormed) (envTyped : env.Typed program Stray) {ty : Ty}
    (typed : program.HasTy handle ty) (known : program.NoBottom handle) :
    Safe (·.HasTy program Stray ty) (program.value env handle) := by
  induction typed with
  | @primitive handle op operands present arity operandTy ih =>
    rw [value_of_get? wellFormed.table present]
    have literals : Safe (List.Forall₂ (fun literal _ => literal.HasTy op.operandTy) · operands)
        (operands.mapM fun operand => program.value env operand >>= Value.asLiteral) := by
      refine .mapM (List.forall₂_same.mpr fun _ _ => Eq.refl _) fun operand _ member _ => ?_
      refine (ih operand member (known.child wellFormed present member)).bind fun value valueTy => ?_
      have ground : ∀ params, op.operandTy ≠ .fn params := by cases op <;> exact nofun
      obtain ⟨literal, rfl, literalTy⟩ := valueTy.exists_literal ground
      exact literalTy
    refine literals.bind fun literals typed => ?_
    have evaluated := op.evaluate_safe (typed.length_eq.trans arity) fun literal member =>
      (Results.exists_right_of_mem typed member).elim fun _ found => found.2
    exact evaluated.bind fun result resultTy => Value.HasTy.literal resultTy
  | @abstraction handle target label present found =>
    rw [(value_abstraction_iff wellFormed.table present).mpr ⟨mem_names_iff.mpr ⟨label, found⟩, rfl⟩]
    exact Value.closure_hasTy found envTyped
  | parameter present found atIndex =>
    rw [value_parameter wellFormed.table present]
    exact parameterValue_safe wellFormed envTyped found atIndex
  | @quote handle literal present =>
    rw [value_quote wellFormed.table present]
    cases literal with
    | bottom ty => cases known handle (Table.mem_parts_self _ _) _ present
    | int => exact .literal ⟨rfl, rfl⟩
    | bool => exact .literal ⟨rfl, rfl⟩
  | @cast handle source actual ty present sourceTy castable ih =>
    rw [value_of_get? wellFormed.table present]
    refine (ih (known.child wellFormed present (List.mem_singleton_self source))).bind
      fun value valueTy => ?_
    have ground : ∀ params, actual ≠ .fn params := by
      rintro params rfl
      cases castable
    obtain ⟨literal, rfl, literalTy⟩ := valueTy.exists_literal ground
    exact (literal.cast_safe literalTy castable).bind fun result resultTy =>
      Value.HasTy.literal resultTy

/-- A label is about to be executed that was entered with arguments, and all arguments are well
typed. -/
structure ConfigTyped (program : Program) (Stray : Name → List Value → Prop)
    (config : Configuration) : Prop where
  label : ∃ label, program.find? config.name = some label
  entered : ∃ arguments, config.env.get? config.name = some arguments
  env : config.env.Typed program Stray

/-- A label can be entered with well-typed arguments. -/
theorem enter_safe (envTyped : env.Typed program Stray) {name : Name} {label : Label}
    (found : program.find? name = some label) {arguments : List Value}
    (typed : List.Forall₂ (Value.HasTy program Stray) arguments label.signature) :
    Safe (program.ConfigTyped Stray) (program.enter name env arguments) := by
  rw [enter_eq_ok_iff.mpr ⟨label, found, typed.length_eq, rfl⟩]
  refine ⟨⟨label, found⟩, ⟨arguments, ?_⟩, envTyped.set found typed⟩
  rw [Env.get?_set, if_pos rfl]

/-- A well-typed body leads to a label with well-typed arguments. -/
theorem jumpTo_safe (wellFormed : program.WellFormed) (envTyped : env.Typed program Stray)
    (present : program.table.get? handle = some node) (known : program.NoBottom handle)
    (typed : program.BodyTyped node) (name : Name) :
    Safe (program.ConfigTyped Stray) (program.jumpTo env name node) := by
  have value {child : Handle} {ty : Ty} (member : child ∈ node.children)
      (typed : program.HasTy child ty) :=
    value_safe wellFormed envTyped typed (known.child wellFormed present member)
  cases typed with
  | call calleeTy argumentTy =>
    refine (value List.mem_cons_self calleeTy).bind fun callee typed => ?_
    obtain ⟨continuation, captured, label, rfl, found, rfl, capturedTyped⟩ := typed.exists_closure
    have values := Safe.mapM argumentTy fun argument ty member typed =>
      value (List.mem_cons_of_mem _ member) typed
    exact values.bind fun values valueTy => enter_safe capturedTyped found valueTy
  | @branch _ onTrue onFalse conditionTy trueTy falseTy =>
    refine (value (by simp [Node.children]) conditionTy).bind fun condition typed => ?_
    obtain ⟨literal, rfl, literalTy⟩ := typed.exists_literal (by simp)
    obtain ⟨taken, rfl⟩ := Literal.HasTy.bool_iff.mp literalTy
    have targetTy : program.HasTy (if taken then onTrue else onFalse) (.fn []) := by
      cases taken with
      | true => exact trueTy
      | false => exact falseTy
    refine (value (by cases taken <;> simp [Node.children]) targetTy).bind fun target typed => ?_
    obtain ⟨continuation, captured, label, rfl, found, noParams, capturedTyped⟩ := typed.exists_closure
    exact enter_safe capturedTyped found (noParams ▸ .nil)

/-- A step of a well-typed program keeps configurations well typed. -/
theorem step_safe (wellFormed : program.WellFormed) (typed : program.Typed)
    (bottomFree : program.BottomFree) {config : Configuration}
    (configTyped : program.ConfigTyped Stray config) :
    Safe (program.ConfigTyped Stray) (program.step config) := by
  obtain ⟨label, found⟩ := configTyped.label
  have member := mem_of_find? found
  obtain ⟨body, present, bodyTyped⟩ := typed label member
  rw [step_eq_stepTo wellFormed.table, stepTo, resolve_eq_ok_iff.mpr found]
  change Safe _ (liftM (program.table.get label.body) >>= program.jumpTo config.env label.name)
  rw [Table.get_eq_ok_iff.mpr present]
  exact jumpTo_safe wellFormed configTyped.env present (bottomFree label member) bodyTyped label.name

/-- Where a well-typed run may end: at a label with well-typed arguments, at a failure that types do
not exclude, or at the step limit. -/
def SafeEnd (program : Program) (Stray : Name → List Value → Prop) (halts : List Name) :
    Except EvalError Halt → Prop
  | .ok halt => halt.continuation ∈ halts ∧
      ∃ label, program.find? halt.continuation = some label ∧
        List.Forall₂ (Value.HasTy program Stray) halt.arguments label.signature
  | .error error => error.Excusable ∨ ∃ steps, error = .stepLimitExceeded steps

/-- A run of a well-typed program ends well. -/
theorem runFor_safe (wellFormed : program.WellFormed) (typed : program.Typed)
    (bottomFree : program.BottomFree) {config : Configuration}
    (configTyped : program.ConfigTyped Stray config) (halts : List Name) (remaining steps : Nat) :
    program.SafeEnd Stray halts (program.runFor halts remaining steps config) := by
  refine runFor_related program program
    (fun left right => left = right ∧ program.ConfigTyped Stray left)
    (fun outcome _ => program.SafeEnd Stray halts outcome) ?_ ?_ ?_ ?_ ⟨rfl, configTyped⟩
    remaining steps
  · rintro config _ ⟨rfl, configTyped⟩ -
    have safe := step_safe wellFormed typed bottomFree configTyped
    generalize program.step config = outcome at safe
    cases outcome with
    | error error => exact .leftFails fun _ => .inl safe
    | ok next => exact .both ⟨rfl, safe⟩
  · rintro config _ ⟨rfl, -⟩
    exact Iff.rfl
  · rintro config _ steps ⟨rfl, configTyped⟩ stops
    obtain ⟨label, found⟩ := configTyped.label
    obtain ⟨arguments, entered⟩ := configTyped.entered
    refine ⟨stops, label, found, ?_⟩
    change List.Forall₂ _ ((config.env.get? config.name).getD []) _
    rw [entered]
    exact configTyped.env.values config.name label arguments entered found
  · exact fun steps => .inr ⟨steps, rfl⟩

theorem runWithin_safe (wellFormed : program.WellFormed) (typed : program.Typed)
    (bottomFree : program.BottomFree) {entry : Name} {label : Label}
    (found : program.find? entry = some label) {arguments : List Value}
    (argumentTy : List.Forall₂ (Value.HasTy program Stray) arguments label.signature)
    (halts : List Name) (limit : Nat) :
    program.SafeEnd Stray halts (program.runWithin entry arguments halts limit) := by
  rw [runWithin, start_eq_enter]
  have start := enter_safe Env.typed_nil found argumentTy
  generalize program.enter entry [] arguments = first at start
  cases first with
  | error error => exact .inl start
  | ok config => exact runFor_safe wellFormed typed bottomFree start halts limit 0

/-- Type soundness. A run of a program that type checks and has no unknown constants, from a label
with well-typed arguments, halts with well-typed arguments, fails by a division by zero or at a
parameter that is not bound, or exceeds its step limit; without a limit it may also not end. -/
theorem run_typeSafe (wellFormed : program.WellFormed) (checked : program.typeCheck = .ok ())
    (bottomFree : program.BottomFree) (Stray : Name → List Value → Prop) {entry : Name}
    {label : Label} (found : program.find? entry = some label) {arguments : List Value}
    (typed : List.Forall₂ (Value.HasTy program Stray) arguments label.signature)
    (halts : List Name) (limit : Option UInt64) :
    match program.run entry arguments halts limit with
    | none => limit = none
    | some (.ok halt) => halt.continuation ∈ halts ∧
        ∃ target, program.find? halt.continuation = some target ∧
          List.Forall₂ (Value.HasTy program Stray) halt.arguments target.signature
    | some (.error error) => error = .divisionByZero ∨
        (∃ name index, error = .unboundParameter name index) ∨
          ∃ steps, error = .stepLimitExceeded steps := by
  have safe := runWithin_safe wellFormed (typed_of_typeCheck checked) bottomFree found typed halts
    (allowance limit)
  rw [run_eq_observed]
  rcases observed_cases limit (program.runWithin entry arguments halts (allowance limit)) with
    seen | ⟨hidden, noLimit, -⟩
  · rw [seen]
    generalize program.runWithin entry arguments halts (allowance limit) = outcome at safe
    cases outcome with
    | ok halt => exact safe
    | error error =>
      rcases safe with excusable | exceeded
      · cases excusable with
        | divisionByZero => exact .inl rfl
        | unboundParameter name index => exact .inr (.inl ⟨name, index, rfl⟩)
      · exact .inr (.inr exceeded)
  · rw [hidden]
    exact noLimit

/-- The factorial of five, returned to a closure whose environment was left by an earlier call. -/
theorem run_typeSafe_factorial :
    let program := Samples.factorialWithReturn.toOption.getD {}
    let earlier : Env := [("fac", [.literal (.int 3), .closure "ret" []])]
    let arguments := [.literal (.int 5), .closure "ret" earlier]
    program.WellFormed ∧ program.typeCheck = .ok () ∧ program.BottomFree ∧
    List.Forall₂ (Value.HasTy program fun _ _ => False) arguments [.int, .fn [.int]] ∧
    program.run "fac" arguments ["ret"] none = some (.ok ⟨"ret", [.literal (.int 120)], 12⟩) ∧
    List.Forall₂ (Value.HasTy program fun _ _ => False) [.literal (.int 120)] [.int] := by
  intro program earlier arguments
  obtain ⟨wellFormed, checked, bottomFree, ran, hasFac, hasRet⟩ :
      program.WellFormed ∧ program.typeCheck = .ok () ∧ program.BottomFree ∧
      program.runWithin "fac" arguments ["ret"] stepCeiling =
        .ok ⟨"ret", [.literal (.int 120)], 12⟩ ∧
      (program.find? "fac").map (·.signature) = some [.int, .fn [.int]] ∧
      (program.find? "ret").map (·.signature) = some [.int] := by decide +kernel
  obtain ⟨fac, foundFac, facTy⟩ := Option.map_eq_some_iff.mp hasFac
  obtain ⟨ret, foundRet, retTy⟩ := Option.map_eq_some_iff.mp hasRet
  have ran : program.run "fac" arguments ["ret"] none = some (.ok _) :=
    run_eq_halt_iff.mpr ⟨ran, by decide⟩
  have closureTy {env : Env} (typed : env.Typed program fun _ _ => False) :
      (Value.closure "ret" env).HasTy program (fun _ _ => False) (.fn [.int]) :=
    retTy ▸ Value.closure_hasTy foundRet typed
  have argumentTy (number : Int64) {env : Env} (typed : env.Typed program fun _ _ => False) :
      List.Forall₂ (Value.HasTy program fun _ _ => False)
        [.literal (.int number), .closure "ret" env] fac.signature :=
    facTy ▸ .cons (.literal ⟨rfl, rfl⟩) (.cons (closureTy typed) .nil)
  have earlierTyped : earlier.Typed program fun _ _ => False :=
    Env.typed_nil.set foundFac (argumentTy 3 Env.typed_nil)
  have typed := argumentTy 5 earlierTyped
  have safe := run_typeSafe wellFormed checked bottomFree (fun _ _ => False) foundFac typed ["ret"]
    none
  rw [ran] at safe
  obtain ⟨-, target, foundTarget, resultTy⟩ := safe
  rw [foundRet] at foundTarget
  cases foundTarget
  rw [retTy] at resultTy
  rw [facTy] at typed
  exact ⟨wellFormed, checked, bottomFree, typed, ran, resultTy⟩

end Program

end CpsGraph
