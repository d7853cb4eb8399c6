import CpsGraph.Proofs.DirectEvaluation

/-! # Values over given names

A value is within some names if its closures name only these, and their environments bind only
these, all the way down. Which names may be closed over and which may be bound are two conditions.
Evaluation makes closures of labels only, so a step keeps an environment within the labels.
-/

namespace CpsGraph

variable {Named Bound : Name → Prop}

/-- The closures in a value name only names that may be named, and bind only names that may be
bound, through all captured environments. -/
inductive Value.Within (Named Bound : Name → Prop) : Value → Prop
  | literal (value : Literal) : Within Named Bound (.literal value)
  | closure {continuation : Name} {env : Env} (named : Named continuation)
      (bound : ∀ binding ∈ env, Bound binding.1)
      (values : ∀ binding ∈ env, ∀ value ∈ binding.2, Within Named Bound value) :
      Within Named Bound (.closure continuation env)

/-- An environment binds only names that may be bound, to values within the names. -/
structure Env.Within (Named Bound : Name → Prop) (env : Env) : Prop where
  bound : ∀ binding ∈ env, Bound binding.1
  values : ∀ binding ∈ env, ∀ value ∈ binding.2, value.Within Named Bound

/-- A configuration is at a name that may be named, with an environment within the names. -/
structure Configuration.Within (Named Bound : Name → Prop) (config : Configuration) : Prop where
  named : Named config.name
  env : config.env.Within Named Bound

/-- Any value is within all names. -/
theorem Value.within_of_forall (named : ∀ name, Named name) (bound : ∀ name, Bound name) :
    (value : Value) → value.Within Named Bound
  | .literal value => .literal value
  | .closure continuation env =>
    .closure (named continuation) (fun binding _ => bound binding.1)
      fun binding _inEnv value _inBinding => within_of_forall named bound value
termination_by value => sizeOf value
decreasing_by
  have inner := List.sizeOf_lt_of_mem _inBinding
  have outer := List.sizeOf_lt_of_mem _inEnv
  have pair : sizeOf binding = 1 + sizeOf binding.1 + sizeOf binding.2 := by cases binding; rfl
  simp only [Value.closure.sizeOf_spec]
  omega

namespace Env

variable {env : Env} {name : Name} {arguments : List Value}

theorem within_nil : Env.Within Named Bound [] := ⟨nofun, nofun⟩

theorem within_of_closure (within : (Value.closure name env).Within Named Bound) :
    Named name ∧ env.Within Named Bound := by
  cases within with
  | closure named bound values => exact ⟨named, bound, values⟩

theorem mem_set {binding : Name × List Value} (member : binding ∈ env.set name arguments) :
    binding = (name, arguments) ∨ binding ∈ env := by
  fun_induction set env name arguments <;> grind

theorem Within.get? (within : env.Within Named Bound) (found : env.get? name = some arguments) :
    Bound name ∧ ∀ value ∈ arguments, value.Within Named Bound :=
  have member := Results.mem_of_lookup found
  ⟨within.bound _ member, within.values _ member⟩

theorem Within.set (within : env.Within Named Bound) (bound : Bound name)
    (values : ∀ value ∈ arguments, value.Within Named Bound) :
    (env.set name arguments).Within Named Bound := by
  constructor
  · intro binding member
    rcases mem_set member with rfl | before
    · exact bound
    · exact within.bound binding before
  · intro binding member
    rcases mem_set member with rfl | before
    · exact values
    · exact within.values binding before

end Env

namespace Program

variable {program : Program} {env : Env} {handle : Handle} {config next : Configuration}

section Labels

variable (labels : ∀ name ∈ program.names, Named name)

include labels

/-- Evaluation makes closures of labels and otherwise takes values from the environment. -/
theorem value_within_of_labels (wellFormed : program.table.WellFormed)
    (within : env.Within Named Bound) {value : Value}
    (success : program.value env handle = .ok value) : value.Within Named Bound := by
  rw [value_eq wellFormed] at success
  obtain ⟨node, -, success⟩ := Results.bind_eq_ok_iff.mp success
  cases node with
  | primitive op operands =>
    obtain ⟨literals, -, success⟩ := Results.bind_eq_ok_iff.mp success
    obtain ⟨literal, -, success⟩ := Results.bind_eq_ok_iff.mp success
    cases success
    exact .literal literal
  | abstraction target =>
    obtain ⟨label, resolved, success⟩ := Results.bind_eq_ok_iff.mp success
    cases success
    have found := resolve_eq_ok_iff.mp (liftM_eq_ok_iff.mp resolved)
    have named := labels target (mem_names_iff.mpr ⟨label, found⟩)
    rw [← name_of_find? found] at named
    exact .closure named within.bound within.values
  | parameter target index =>
    obtain ⟨_, arguments, -, atName, atIndex⟩ := parameterValue_eq_ok_iff.mp success
    exact (within.get? atName).2 value (List.mem_of_getElem? atIndex)
  | quote literal =>
    cases success
    exact .literal literal
  | cast source ty =>
    obtain ⟨found, -, success⟩ := Results.bind_eq_ok_iff.mp success
    obtain ⟨literal, -, success⟩ := Results.bind_eq_ok_iff.mp success
    obtain ⟨result, -, success⟩ := Results.bind_eq_ok_iff.mp success
    cases success
    exact .literal result
  | _ => cases success

/-- Entering a closure binds its label. -/
theorem enter_within_of_labels {continuation : Name} {arguments : List Value}
    (success : program.enter continuation env arguments = .ok next)
    (within : env.Within Named Bound) (bound : ∀ name ∈ program.names, Bound name)
    (values : ∀ value ∈ arguments, value.Within Named Bound) : next.Within Named Bound := by
  obtain ⟨label, found, -, rfl⟩ := enter_eq_ok_iff.mp success
  have known := mem_names_iff.mpr ⟨label, found⟩
  exact ⟨labels continuation known, within.set (bound continuation known) values⟩

/-- A step leads to a label, with an environment that is again within the names. -/
theorem step_within_of_labels (wellFormed : program.table.WellFormed)
    (success : program.step config = .ok next) (within : config.env.Within Named Bound)
    (bound : ∀ name ∈ program.names, Bound name) : next.Within Named Bound := by
  obtain ⟨label, body, -, -, jumps⟩ := (step_eq_ok_iff wellFormed).mp success
  cases jumps with
  | call atCallee atArguments entered =>
    obtain ⟨-, capturedWithin⟩ :=
      Env.within_of_closure (value_within_of_labels labels wellFormed within atCallee)
    refine enter_within_of_labels labels entered capturedWithin bound fun value member => ?_
    obtain ⟨argument, -, atArgument⟩ := Results.exists_left_of_mem atArguments member
    exact value_within_of_labels labels wellFormed within atArgument
  | branch atCondition atTarget entered =>
    obtain ⟨-, capturedWithin⟩ :=
      Env.within_of_closure (value_within_of_labels labels wellFormed within atTarget)
    exact enter_within_of_labels labels entered capturedWithin bound nofun

end Labels

theorem value_within (wellFormed : program.table.WellFormed)
    (within : env.Within (· ∈ program.names) Bound) {value : Value}
    (success : program.value env handle = .ok value) : value.Within (· ∈ program.names) Bound :=
  value_within_of_labels (fun _ => id) wellFormed within success

theorem enter_within {continuation : Name} {arguments : List Value}
    (success : program.enter continuation env arguments = .ok next)
    (within : env.Within (· ∈ program.names) Bound) (bound : ∀ name ∈ program.names, Bound name)
    (values : ∀ value ∈ arguments, value.Within (· ∈ program.names) Bound) :
    next.Within (· ∈ program.names) Bound :=
  enter_within_of_labels (fun _ => id) success within bound values

theorem step_within (wellFormed : program.table.WellFormed) (success : program.step config = .ok next)
    (within : config.env.Within (· ∈ program.names) Bound)
    (bound : ∀ name ∈ program.names, Bound name) : next.Within (· ∈ program.names) Bound :=
  step_within_of_labels (fun _ => id) wellFormed success within bound

end Program

end CpsGraph
