import CpsGraph.Proofs.ValidPrograms

/-! # Faultless programs

A part of a body is at fault if it names no label, or a parameter that its label does not have, if it
is a branch without exactly three arguments, or if it is a continuation, which no body contains. A
program whose bodies have no such part can be traversed from all of its labels, and the continuations
that can be reached are those of the labels. Unlike a valid program it may have a call or a branch in
the place of an expression.
-/

namespace CpsGraph

namespace Table

/-- Every part of a node is there and satisfies a condition. -/
def Throughout (table : Table) (Holds : Node → Prop) (handle : Handle) : Prop :=
  ∀ part ∈ table.parts handle, ∃ node, table.get? part = some node ∧ Holds node

variable {table : Table} {Holds : Node → Prop} {handle : Handle} {node : Node}

/-- A condition holds throughout a node if it holds of the node and throughout its children. -/
theorem throughout_iff (wellFormed : table.WellFormed) (present : table.get? handle = some node) :
    table.Throughout Holds handle ↔
      Holds node ∧ ∀ child ∈ node.children, table.Throughout Holds child := by
  simp only [Throughout, mem_parts_iff wellFormed present]
  constructor
  · intro throughout
    have atNode := throughout handle (.inl rfl)
    simp only [present, Option.some.injEq, exists_eq_left'] at atNode
    exact ⟨atNode, fun child member part inside => throughout part (.inr ⟨child, member, inside⟩)⟩
  · rintro ⟨holds, children⟩ part (rfl | ⟨child, member, inside⟩)
    · exact ⟨node, present, holds⟩
    · exact children child member part inside

theorem Throughout.exists_get? (throughout : table.Throughout Holds handle) :
    ∃ node, table.get? handle = some node ∧ Holds node :=
  throughout handle (table.mem_parts_self handle)

end Table

/-- Whether an error is about a node of a body: it names no label or none of its parameters, or it
cannot stand where it does. -/
def GraphError.isNodeFault : GraphError → Bool
  | .unboundName _ | .parameterOutOfRange .. | .malformedBranch _ | .notAnExpression _ => true
  | _ => false

namespace Program

/-- What is wrong with a node of a body, apart from its parts. -/
inductive Faulty (program : Program) : Node → GraphError → Prop
  | abstraction {target : Name} (unbound : target ∉ program.names) :
      Faulty program (.abstraction target) (.unboundName target)
  | parameter {target : Name} {index : Nat} {fault : GraphError}
      (missing : program.parameter target index = .error fault) :
      Faulty program (.parameter target index) fault
  | branch {arguments : List Handle} (malformed : arguments.length ≠ branchArity) :
      Faulty program (.branch arguments) (.malformedBranch arguments.length)
  | continuation {name : Name} {signature : Signature} {body : Handle} :
      Faulty program (.continuation name signature body) (.notAnExpression .continuation)

/-- Nothing is wrong with a node of a body, apart from its parts. -/
def Unfaulty (program : Program) (node : Node) : Prop := ∀ fault, ¬ program.Faulty node fault

/-- No part of a body is a continuation: none is called, passed, converted or computed with. -/
def Unnested (program : Program) : Prop :=
  ∀ label ∈ program.labels, ∀ part ∈ program.table.parts label.body,
    ∀ node ∈ program.table.get? part, node.kind ≠ .continuation

instance (program : Program) : Decidable program.Unnested :=
  inferInstanceAs (Decidable (∀ label ∈ program.labels, ∀ part ∈ program.table.parts label.body,
    ∀ node ∈ program.table.get? part, node.kind ≠ .continuation))

/-- Nothing is wrong with any part of a body. -/
def Faultless (program : Program) : Prop :=
  ∀ label ∈ program.labels, program.table.Throughout program.Unfaulty label.body

variable {program : Program} {handle : Handle} {node : Node} {label : Label} {name : Name}

theorem Faulty.isNodeFault {fault : GraphError} (faulty : program.Faulty node fault) :
    fault.isNodeFault = true := by
  cases faulty with
  | parameter missing =>
    rename_i target index
    simp only [Program.parameter, resolve] at missing
    cases found : program.find? target with
    | none =>
      simp only [found, Option.elim, bind, Except.bind] at missing
      cases missing
      rfl
    | some label =>
      simp only [found, Option.elim, bind, Except.bind] at missing
      split at missing
      · cases missing
      · cases missing
        rfl
  | _ => rfl

@[simp] theorem unfaulty_abstraction :
    program.Unfaulty (.abstraction name) ↔ name ∈ program.names := by
  constructor
  · intro unfaulty
    by_contra unbound
    exact unfaulty _ (.abstraction unbound)
  · rintro known _ ⟨unbound⟩
    exact unbound known

@[simp] theorem unfaulty_parameter {index : Nat} :
    program.Unfaulty (.parameter name index) ↔
      ∃ handle, program.parameter name index = .ok handle := by
  constructor
  · intro unfaulty
    cases found : program.parameter name index with
    | error fault => exact absurd (.parameter found) (unfaulty fault)
    | ok handle => exact ⟨handle, rfl⟩
  · rintro ⟨handle, found⟩ fault ⟨missing⟩
    simp_all

@[simp] theorem unfaulty_branch {arguments : List Handle} :
    program.Unfaulty (.branch arguments) ↔ arguments.length = branchArity := by
  constructor
  · intro unfaulty
    by_contra malformed
    exact unfaulty _ (.branch malformed)
  · intro wellMade fault faulty
    cases faulty with
    | branch malformed => exact malformed wellMade

@[simp] theorem not_unfaulty_continuation {signature : Signature} {body : Handle} :
    ¬ program.Unfaulty (.continuation name signature body) :=
  fun unfaulty => unfaulty _ .continuation

@[simp] theorem unfaulty_call (callee : Handle) (arguments : List Handle) :
    program.Unfaulty (.call callee arguments) := nofun

@[simp] theorem unfaulty_primitive (op : Operator) (operands : List Handle) :
    program.Unfaulty (.primitive op operands) := nofun

@[simp] theorem unfaulty_quote (literal : Literal) : program.Unfaulty (.quote literal) := nofun

@[simp] theorem unfaulty_cast (source : Handle) (ty : Ty) :
    program.Unfaulty (.cast source ty) := nofun

/-- A node that mentions only names of labels in an unfaulty program mentions labels. -/
theorem mem_names_of_mentions {table : Table}
    (throughout : table.Throughout program.Unfaulty handle) (mentions : table.Mentions handle name) :
    name ∈ program.names := by
  obtain ⟨part, inside, named⟩ := mentions
  obtain ⟨node, present, unfaulty⟩ := throughout part inside
  rcases named with here | ⟨index, here⟩
  · rw [here] at present
    cases present
    exact unfaulty_abstraction.mp unfaulty
  · rw [here] at present
    cases present
    obtain ⟨_, known⟩ := unfaulty_parameter.mp unfaulty
    obtain ⟨label, found, -⟩ := parameter_eq_ok_iff.mp known
    exact mem_names_iff.mpr ⟨label, found⟩

theorem Expression.unfaulty (expression : program.Expression handle)
    (present : program.table.get? handle = some node) : program.Unfaulty node := by
  cases expression with
  | abstraction here known | parameter here known =>
    rw [here] at present
    cases present
    simpa using known
  | primitive here | cast here | quote here =>
    rw [here] at present
    cases present
    simp

theorem Expression.throughout (expression : program.Expression handle)
    (wellFormed : program.table.WellFormed) : program.table.Throughout program.Unfaulty handle := by
  intro part inside
  have atPart := expression.of_mem_parts wellFormed inside
  obtain ⟨node, present⟩ := atPart.exists_get?
  exact ⟨node, present, atPart.unfaulty present⟩

/-- A valid program is faultless. -/
theorem Valid.faultless (wellFormed : program.WellFormed) (valid : program.Valid) :
    program.Faultless := by
  intro label member
  obtain ⟨node, present, validBody⟩ := valid label member
  apply (Table.throughout_iff wellFormed.table present).mpr
  constructor
  · cases validBody <;> simp [branchArity]
  · exact fun child part => (validBody.child part).throughout wellFormed.table

/-! ## Traversing a faultless program -/

/-- A node without a fault leads to its children, and a closure to its continuation. -/
theorem Unfaulty.exists_leads (unfaulty : program.Unfaulty node) :
    ∃ found, program.Leads node found ∧ ∀ next ∈ found, next ∈ node.children ∨
      ∃ label ∈ program.labels, node = .abstraction label.name ∧ next = label.node := by
  cases node with
  | call callee arguments => exact ⟨_, .call callee arguments, fun _ => .inl⟩
  | branch arguments => exact ⟨_, .branch (unfaulty_branch.mp unfaulty), fun _ => .inl⟩
  | primitive op operands => exact ⟨_, .primitive op operands, fun _ => .inl⟩
  | parameter target index => exact ⟨_, .parameter (unfaulty_parameter.mp unfaulty), nofun⟩
  | quote literal => exact ⟨_, .quote literal, nofun⟩
  | cast source ty => exact ⟨_, .cast source ty, fun _ => .inl⟩
  | abstraction target =>
    obtain ⟨label, found⟩ := mem_names_iff.mp (unfaulty_abstraction.mp unfaulty)
    refine ⟨_, .abstraction found, fun next isNext => .inr ⟨label, mem_of_find? found, ?_, ?_⟩⟩
    · rw [name_of_find? found]
    · exact List.mem_singleton.mp isNext
  | continuation => exact absurd unfaulty not_unfaulty_continuation

/-- A traversable program without a continuation among the parts of its bodies is faultless. -/
theorem Resolved.faultless (resolved : program.Resolved) (unnested : program.Unnested) :
    program.Faultless := by
  intro label member part inside
  obtain ⟨found, edges⟩ := resolved part ⟨label, member, .inr (.inr inside)⟩
  obtain ⟨node, present, leads⟩ := successors_eq_ok_iff.mp edges
  refine ⟨node, present, ?_⟩
  cases leads with
  | continuation => exact absurd rfl (unnested label member part inside _ present)
  | branch arity => exact unfaulty_branch.mpr arity
  | abstraction found => exact unfaulty_abstraction.mpr (mem_names_iff.mpr ⟨_, found⟩)
  | parameter known => exact unfaulty_parameter.mpr known
  | call | primitive | quote | cast => simp

section Faultless

variable (wellFormed : program.WellFormed) (faultless : program.Faultless)

include wellFormed faultless

/-- All that can be reached in a faultless program has edges. -/
theorem Faultless.resolved : program.Resolved := by
  rintro handle ⟨label, member, rfl | isParameter | inside⟩
  · exact ⟨_, successors_node wellFormed member⟩
  · obtain ⟨index, atIndex⟩ := List.mem_iff_getElem?.mp isParameter
    have present := (wellFormed.labels label member).get?_parameter atIndex
    have known := parameter_eq_ok_iff.mpr ⟨label, find?_of_mem wellFormed.names member, atIndex⟩
    exact ⟨[], successors_parameter present ⟨_, known⟩⟩
  · obtain ⟨node, present, unfaulty⟩ := faultless label member handle inside
    obtain ⟨found, leads, -⟩ := unfaulty.exists_leads
    exact ⟨found, successors_eq_ok_iff.mpr ⟨node, present, leads⟩⟩

omit wellFormed in
/-- The parts of a body are no continuations. -/
theorem Faultless.ne_continuation (member : label ∈ program.labels)
    (inside : handle ∈ program.table.parts label.body) {signature : Signature} {body : Handle} :
    program.table.get? handle ≠ some (.continuation name signature body) := by
  intro present
  obtain ⟨node, presentAgain, unfaulty⟩ := faultless label member handle inside
  rw [present] at presentAgain
  cases presentAgain
  exact not_unfaulty_continuation unfaulty

/-- The continuations that can be reached are those of the labels. -/
theorem Faultless.exists_label_of_reached (reached : program.Reached handle) {signature : Signature}
    {body : Handle} (present : program.table.get? handle = some (.continuation name signature body)) :
    ∃ label ∈ program.labels, handle = label.node ∧ name = label.name := by
  obtain ⟨label, member, rfl | isParameter | inside⟩ := reached
  · rw [(wellFormed.labels label member).node] at present
    cases present
    exact ⟨label, member, rfl, rfl⟩
  · obtain ⟨index, atIndex⟩ := List.mem_iff_getElem?.mp isParameter
    rw [(wellFormed.labels label member).get?_parameter atIndex] at present
    cases present
  · exact absurd present (faultless.ne_continuation member inside)

/-- A parameter in a body is a parameter of a label. -/
theorem Faultless.exists_parameter (member : label ∈ program.labels)
    (inside : handle ∈ program.table.parts label.body) {index : Nat}
    (present : program.table.get? handle = some (.parameter name index)) :
    ∃ target, program.find? name = some target ∧ handle ∈ target.parameters := by
  obtain ⟨node, presentAgain, unfaulty⟩ := faultless label member handle inside
  rw [present] at presentAgain
  cases presentAgain
  obtain ⟨target, found, inRange⟩ := wellFormed.exists_parameter_iff.mp (unfaulty_parameter.mp unfaulty)
  have named := name_of_find? found
  subst named
  exact ⟨target, found, List.mem_of_getElem?
    ((wellFormed.registered found).parameters_getElem? wellFormed.table inRange present)⟩

theorem Faultless.exists_reachable {roots : List Handle}
    (reached : ∀ root ∈ roots, program.Reached root) :
    ∃ order, program.reachable roots = .ok order ∧ (∀ root ∈ roots, root ∈ order) ∧
      ∀ handle ∈ order, ∀ found, program.successors handle = .ok found →
        ∀ next ∈ found, next ∈ order :=
  (faultless.resolved wellFormed).exists_reachable wellFormed reached

/-- A faultless program passes validation. -/
theorem Faultless.validate : program.validate = .ok () :=
  (validate_eq_ok_iff wellFormed).mpr (faultless.resolved wellFormed)

end Faultless

theorem Valid.resolved (wellFormed : program.WellFormed) (valid : program.Valid) :
    program.Resolved :=
  (valid.faultless wellFormed).resolved wellFormed

end Program

end CpsGraph
