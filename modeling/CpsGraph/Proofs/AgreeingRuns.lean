import CpsGraph.Proofs.Simulation
import CpsGraph.Proofs.StructuralEquality
import CpsGraph.Proofs.Within

/-! # Runs of agreeing programs

Two programs agree on some names if each of them is a label of both, with the same signature and
equal bodies, or a label of neither. If all labels of the first program and all names in their bodies
are among these names, then a run that starts with nothing else takes the same steps in both programs
and ends alike, whether it halts, fails or exceeds its limit.
-/

namespace CpsGraph

/-- Two labels, of two programs, have the same signature and equal bodies. -/
structure Label.Alike (left right : Table) (label other : Label) : Prop where
  signature : label.signature = other.signature
  body : left.Alike right label.body other.body

/-- Two programs have the same labels among some names, and these include all that the first one
can lead to. -/
structure Program.AgreeOn (Named : Name → Prop) (first second : Program) : Prop where
  wellFormed : first.WellFormed
  otherWellFormed : second.WellFormed
  labels : ∀ name, Named name →
    Option.Rel (Label.Alike first.table second.table) (first.find? name) (second.find? name)
  named : ∀ name ∈ first.names, Named name
  mentioned : ∀ label ∈ first.labels, ∀ name, first.table.Mentions label.body name → Named name

namespace Program.AgreeOn

variable {Named Bound : Name → Prop} {first second : Program} {env : Env} {name : Name} {x y : Handle}

/-- Looking up a name fails alike, or finds labels that are alike. -/
theorem resolve_cases (agree : AgreeOn Named first second) (named : Named name) :
    (first.resolve name = .error (.unboundName name) ∧
      second.resolve name = .error (.unboundName name)) ∨
    ∃ label other, first.find? name = some label ∧ second.find? name = some other ∧
      label.Alike first.table second.table other := by
  have related := agree.labels name named
  unfold resolve
  cases found : first.find? name with
  | none =>
    rw [found] at related
    cases otherFound : second.find? name with
    | none => exact .inl ⟨rfl, rfl⟩
    | some other =>
      rw [otherFound] at related
      cases related
  | some label =>
    rw [found] at related
    cases otherFound : second.find? name with
    | none =>
      rw [otherFound] at related
      cases related
    | some other =>
      rw [otherFound] at related
      cases related with
      | some alike => exact .inr ⟨label, other, rfl, rfl, alike⟩

theorem enter_eq (agree : AgreeOn Named first second) (named : Named name) (arguments : List Value) :
    first.enter name env arguments = second.enter name env arguments := by
  unfold enter
  rcases agree.resolve_cases named with ⟨unbound, otherUnbound⟩ | ⟨label, other, found, otherFound, alike⟩
  · rw [unbound, otherUnbound]
  · rw [resolve_eq_ok_iff.mpr found, resolve_eq_ok_iff.mpr otherFound]
    change (if arguments.length = label.arity then _ else _) =
      (if arguments.length = other.arity then _ else _)
    rw [Label.arity, Label.arity, alike.signature, name_of_find? found, name_of_find? otherFound]

/-- A parameter is bound or not in both programs, whatever its handles are. -/
theorem parameterValue_eq (agree : AgreeOn Named first second) (named : Named name) (index : Nat) :
    first.parameterValue env name index = second.parameterValue env name index := by
  unfold parameterValue parameter
  rcases agree.resolve_cases named with ⟨unbound, otherUnbound⟩ | ⟨label, other, found, otherFound, alike⟩
  · rw [unbound, otherUnbound]
  · have length := (agree.wellFormed.registered found).length_parameters
    have otherLength := (agree.otherWellFormed.registered otherFound).length_parameters
    have arity : label.arity = other.arity := by rw [Label.arity, Label.arity, alike.signature]
    rw [resolve_eq_ok_iff.mpr found, resolve_eq_ok_iff.mpr otherFound]
    simp only [bind, Except.bind]
    by_cases inRange : index < label.arity
    · rw [List.getElem?_eq_getElem (length ▸ inRange),
        List.getElem?_eq_getElem (otherLength ▸ arity ▸ inRange)]
      rfl
    · have outside := Nat.le_of_not_lt inRange
      rw [List.getElem?_eq_none (length ▸ outside), List.getElem?_eq_none (otherLength ▸ arity ▸ outside),
        name_of_find? found, name_of_find? otherFound, arity]

/-- Equal structures have the same value, or fail with the same error. -/
theorem value_eq (agree : AgreeOn Named first second) (alike : first.table.Alike second.table x y)
    (mentioned : ∀ name, first.table.Mentions x name → Named name) :
    first.value env x = second.value env y := by
  induction x using Nat.strongRecOn generalizing y with
  | ind x ih =>
    obtain ⟨node, otherNode, atX, atY, parallel⟩ := alike.parallel
    have closed := agree.wellFormed.table
    have atChild {child otherChild : Handle} (isChild : child ∈ node.children)
        (alike : first.table.Alike second.table child otherChild) :
        first.value env child = second.value env otherChild :=
      ih child (closed.child_lt atX isChild) alike fun name mentions =>
        mentioned name (mentions.of_child closed atX isChild)
    rw [value_of_get? closed atX, value_of_get? agree.otherWellFormed.table atY]
    cases parallel with
    | @primitive op operands others atOperands =>
      have literals : (operands.mapM fun operand => first.value env operand >>= Value.asLiteral) =
          others.mapM fun operand => second.value env operand >>= Value.asLiteral :=
        Results.mapM_eq_of_related atOperands fun operand other isChild alike => by
          rw [atChild isChild alike]
      simp only [valueNode, literals]
    | abstraction target =>
      have named := mentioned target (Table.mentions_abstraction atX)
      simp only [valueNode]
      rcases agree.resolve_cases named with
        ⟨unbound, otherUnbound⟩ | ⟨label, other, found, otherFound, -⟩
      · rw [unbound, otherUnbound]
      · rw [resolve_eq_ok_iff.mpr found, resolve_eq_ok_iff.mpr otherFound]
        change Except.ok (Value.closure label.name env) = Except.ok (Value.closure other.name env)
        rw [name_of_find? found, name_of_find? otherFound]
    | parameter target index =>
      exact agree.parameterValue_eq (mentioned target (Table.mentions_parameter atX)) index
    | quote => rfl
    | cast atSource => simp only [valueNode, atChild List.mem_cons_self atSource]
    | continuation | call | branch => rfl

/-- Equal bodies jump to the same configuration, or fail with the same error. -/
theorem jumpTo_eq (agree : AgreeOn Named first second) {node otherNode : Node}
    (parallel : node.Parallel (first.table.Alike second.table) otherNode)
    (mentioned : ∀ child ∈ node.children, ∀ name, first.table.Mentions child name → Named name)
    (within : env.Within Named Bound) :
    first.jumpTo env name node = second.jumpTo env name otherNode := by
  have atChild {child otherChild : Handle} (isChild : child ∈ node.children)
      (alike : first.table.Alike second.table child otherChild) :
      first.value env child = second.value env otherChild :=
    agree.value_eq alike (mentioned child isChild)
  have closureNamed {callee : Handle} {continuation : Name} {captured : Env} {value : Value}
      (atCallee : first.value env callee = .ok value)
      (isClosure : value.asClosure = .ok (continuation, captured)) : Named continuation := by
    rw [asClosure_eq_ok_iff.mp isClosure] at atCallee
    exact (Env.within_of_closure
      (value_within_of_labels agree.named agree.wellFormed.table within atCallee)).1
  cases parallel with
  | @call callee otherCallee arguments others atCallee atArguments =>
    have values : arguments.mapM (first.value env) = others.mapM (second.value env) :=
      Results.mapM_eq_of_related atArguments fun argument other isArgument alike =>
        atChild (List.mem_cons_of_mem _ isArgument) alike
    refine Results.bind_eq_of_ok (atChild List.mem_cons_self atCallee) fun value found => ?_
    refine Results.bind_eq_of_ok rfl fun (continuation, captured) isClosure => ?_
    refine Results.bind_eq_of_ok values fun values _ => ?_
    exact agree.enter_eq (closureNamed found isClosure) values
  | branch atArguments =>
    -- Only a branch with three arguments is evaluated; the others fail with their length.
    rcases atArguments with _ | ⟨atCondition, _ | ⟨atTrue, _ | ⟨atFalse, _ | ⟨atMore, atRest⟩⟩⟩⟩
    · rfl
    · rfl
    · rfl
    · refine Results.bind_eq_of_ok (atChild List.mem_cons_self atCondition) fun value _ => ?_
      refine Results.bind_eq_of_ok rfl fun literal _ => ?_
      refine Results.bind_eq_of_ok rfl fun taken _ => ?_
      refine Results.bind_eq_of_ok ?_ fun target found => ?_
      · cases taken with
        | true => exact atChild (by simp [Node.children]) atTrue
        | false => exact atChild (by simp [Node.children]) atFalse
      · refine Results.bind_eq_of_ok rfl fun (continuation, captured) isClosure => ?_
        exact agree.enter_eq (closureNamed found isClosure) []
    · simp only [jumpTo, jumpBy, List.length_cons, atRest.length_eq]
  | _ => rfl

/-- Agreeing programs take the same step. -/
theorem step_eq (agree : AgreeOn Named first second) {config : Configuration}
    (within : config.Within Named Bound) : first.step config = second.step config := by
  have closed := agree.wellFormed
  have otherClosed := agree.otherWellFormed
  rcases agree.resolve_cases within.named with
    ⟨unbound, otherUnbound⟩ | ⟨label, other, found, otherFound, alike⟩
  · unfold step
    rw [unbound, otherUnbound]
    rfl
  · obtain ⟨node, otherNode, present, otherPresent, parallel⟩ := alike.body.parallel
    rw [step_eq_jumpTo closed.table found present, step_eq_jumpTo otherClosed.table otherFound otherPresent,
      name_of_find? found, name_of_find? otherFound]
    refine agree.jumpTo_eq parallel (fun child isChild name mentions => ?_) within.env
    exact agree.mentioned label (mem_of_find? found) name
      (mentions.of_child closed.table present isChild)

/-- Agreeing programs run alike from every name on which they agree, with every limit. -/
theorem run_eq (agree : AgreeOn Named first second) (bound : ∀ name ∈ first.names, Bound name)
    {entry : Name} (named : Named entry) {arguments : List Value}
    (within : ∀ argument ∈ arguments, argument.Within Named Bound) (halts : List Name)
    (limit : Option UInt64) :
    first.run entry arguments halts limit = second.run entry arguments halts limit := by
  rw [run_eq_observed, run_eq_observed]
  congr 1
  unfold runWithin
  rw [start_eq_enter, start_eq_enter]
  refine Results.bind_eq_of_ok (agree.enter_eq named arguments) fun config entered => ?_
  have start := enter_within_of_labels agree.named entered Env.within_nil bound within
  refine runFor_related first second (fun left right => left = right ∧ left.Within Named Bound) Eq
    ?_ ?_ ?_ (fun _ => rfl) ⟨rfl, start⟩ (allowance limit) 0
  · rintro config _ ⟨rfl, within⟩ -
    rw [← agree.step_eq within]
    cases stepped : first.step config with
    | error error => exact .bothFail rfl
    | ok next =>
      have nextWithin :=
        step_within_of_labels agree.named agree.wellFormed.table stepped within.env bound
      exact .both ⟨rfl, nextWithin⟩
  · rintro config _ ⟨rfl, -⟩
    exact Iff.rfl
  · rintro config _ steps ⟨rfl, -⟩ -
    rfl

end Program.AgreeOn

end CpsGraph
