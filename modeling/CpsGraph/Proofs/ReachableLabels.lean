import CpsGraph.Proofs.SurvivingLabels

/-! # Which surviving labels are reachable

A traversal goes from a closure to its continuation, but not from a parameter to the continuation
that it belongs to, while simplification keeps a label if its closure or a parameter of it is left.
So a label that only its parameters keep alive survives without being reachable, and this is the
only reason why a surviving label is not reachable.
-/

namespace CpsGraph

namespace Table

/-- A part of the node is the closure of the name. -/
def HasClosure (table : Table) (handle : Handle) (name : Name) : Prop :=
  ∃ part ∈ table.parts handle, table.get? part = some (.abstraction name)

/-- A part of the node is a parameter of the name. -/
def HasParameter (table : Table) (handle : Handle) (name : Name) : Prop :=
  ∃ part ∈ table.parts handle, ∃ index, table.get? part = some (.parameter name index)

theorem mentions_iff {table : Table} {handle : Handle} {name : Name} :
    table.Mentions handle name ↔ table.HasClosure handle name ∨ table.HasParameter handle name := by
  simp only [Mentions, HasClosure, HasParameter, and_or_left, exists_or]

end Table

/-- A handle denotes the continuation of a label, one of its parameters, or a part of its body. -/
def Label.Owns (table : Table) (label : Label) (handle : Handle) : Prop :=
  handle = label.node ∨ handle ∈ label.parameters ∨ handle ∈ table.parts label.body

namespace Program

variable {program : Program} {roots order : List Handle} {names : List Name} {name : Name}

/-- What holds of the roots and is kept along edges holds of all that is reachable. -/
theorem forall_mem_reachable (Holds : Handle → Prop) (success : program.reachable roots = .ok order)
    (start : ∀ root ∈ roots, Holds root)
    (kept : ∀ handle found, Holds handle → program.successors handle = .ok found →
      ∀ next ∈ found, Holds next) : ∀ handle ∈ order, Holds handle := by
  obtain ⟨-, rfl⟩ := Walk.result_eq_ok_iff.mp success
  apply Search.forall_mem_order start
  exact fun handle found holds edges => kept handle found holds (Search.edgesBelow_eq_ok_iff.mp edges).2

/-- A label is listed if what the list has of roots and references leads to it. -/
theorem Linked.node_mem {Refers : Handle → Name → Prop} (linked : program.Linked Refers names name)
    (atRoots : ∀ label ∈ program.labels, label.name ∈ names → label.node ∈ order)
    (followed : ∀ label ∈ program.labels, label.node ∈ order → ∀ other ∈ program.labels,
      Refers label.body other.name → other.node ∈ order) :
    ∀ label ∈ program.labels, label.name = name → label.node ∈ order := by
  induction linked with
  | root isRoot =>
    rintro label member rfl
    exact atRoots label member isRoot
  | step _ isLabel refers ih =>
    rintro label member rfl
    exact followed _ isLabel (ih _ isLabel rfl) label member refers

section Faultless

variable (wellFormed : program.WellFormed) (faultless : program.Faultless)

include wellFormed faultless

/-- With a label whose body has the closure of another, the other is reachable. -/
theorem Faultless.node_mem_of_hasClosure {label other : Label}
    (closed : ∀ handle ∈ order, ∀ found, program.successors handle = .ok found →
      ∀ next ∈ found, next ∈ order)
    (member : label ∈ program.labels) (reached : label.node ∈ order) (isLabel : other ∈ program.labels)
    (hasClosure : program.table.HasClosure label.body other.name) : other.node ∈ order := by
  obtain ⟨part, inside, present⟩ := hasClosure
  have atBody : label.body ∈ order :=
    closed _ reached _ (successors_node wellFormed member) _ List.mem_cons_self
  have atPart : part ∈ order := by
    refine (Table.parts_induction (fun part => part ∈ program.table.parts label.body ∧ part ∈ order)
      wellFormed.table ⟨Table.mem_parts_self _ _, atBody⟩ ?_ part inside).2
    rintro parent node child stored ⟨inside, visited⟩ isChild
    obtain ⟨_, storedAgain, unfaulty⟩ := faultless label member parent inside
    rw [stored] at storedAgain
    cases storedAgain
    obtain ⟨found, leads, -⟩ := unfaulty.exists_leads
    exact ⟨Table.child_mem_parts wellFormed.table inside stored isChild, closed parent visited found
      (successors_eq_ok_iff.mpr ⟨node, stored, leads⟩) child (leads.child child isChild)⟩
  have edges := successors_abstraction present (find?_of_mem wellFormed.names isLabel)
  exact closed part atPart _ edges _ (List.mem_singleton_self _)

/-- An edge stays with its label or follows a closure in the body of it. -/
theorem Faultless.owns_of_successors {label : Label} {handle next : Handle} {found : List Handle}
    (member : label ∈ program.labels) (owns : label.Owns program.table handle)
    (edges : program.successors handle = .ok found) (isNext : next ∈ found) :
    label.Owns program.table next ∨ ∃ other ∈ program.labels,
      program.table.HasClosure label.body other.name ∧ next = other.node := by
  rcases owns with rfl | isParameter | inside
  · rw [successors_node wellFormed member] at edges
    cases edges
    rcases List.mem_cons.mp isNext with rfl | isParameter
    · exact .inl (.inr (.inr (Table.mem_parts_self _ _)))
    · exact .inl (.inr (.inl isParameter))
  · obtain ⟨index, atIndex⟩ := List.mem_iff_getElem?.mp isParameter
    have present := (wellFormed.labels label member).get?_parameter atIndex
    have known := parameter_eq_ok_iff.mpr ⟨label, find?_of_mem wellFormed.names member, atIndex⟩
    rw [successors_parameter present ⟨_, known⟩] at edges
    cases edges
    cases isNext
  · obtain ⟨node, present, unfaulty⟩ := faultless label member handle inside
    obtain ⟨_, leads, owned⟩ := unfaulty.exists_leads
    rw [successors_eq_ok_iff.mpr ⟨node, present, leads⟩] at edges
    cases edges
    rcases owned next isNext with isChild | ⟨other, isLabel, rfl, rfl⟩
    · exact .inl (.inr (.inr (Table.child_mem_parts wellFormed.table inside present isChild)))
    · exact .inr ⟨other, isLabel, ⟨handle, inside, present⟩, rfl⟩

/-- The continuation of a label belongs to no other label. -/
theorem Faultless.eq_of_owns_node {label owner : Label} (member : label ∈ program.labels)
    (isLabel : owner ∈ program.labels) (owns : owner.Owns program.table label.node) :
    label.name = owner.name := by
  have present := (wellFormed.labels label member).node
  rcases owns with same | isParameter | inside
  · rw [same, (wellFormed.labels owner isLabel).node, Option.some.injEq,
      Node.continuation.injEq] at present
    exact present.1.symm
  · obtain ⟨index, atIndex⟩ := List.mem_iff_getElem?.mp isParameter
    rw [(wellFormed.labels owner isLabel).get?_parameter atIndex] at present
    cases present
  · obtain ⟨node, presentToo, unfaulty⟩ := faultless owner isLabel label.node inside
    rw [present] at presentToo
    cases presentToo
    exact absurd unfaulty not_unfaulty_continuation

/-- A label is reachable only if closures lead to it. -/
theorem Faultless.linked_of_node_mem (success : program.reachable roots = .ok order)
    (start : ∀ root ∈ roots, ∃ label ∈ program.labels, label.name ∈ names ∧ root = label.node)
    {label : Label} (member : label ∈ program.labels) (reached : label.node ∈ order) :
    program.Linked program.table.HasClosure names label.name := by
  have belongs : ∃ owner ∈ program.labels, owner.Owns program.table label.node ∧
      program.Linked program.table.HasClosure names owner.name := by
    refine forall_mem_reachable (fun handle => ∃ owner ∈ program.labels,
      owner.Owns program.table handle ∧ program.Linked program.table.HasClosure names owner.name)
      success ?_ ?_ label.node reached
    · intro root isRoot
      obtain ⟨owner, isLabel, isName, rfl⟩ := start root isRoot
      exact ⟨owner, isLabel, .inl rfl, .root isName⟩
    · rintro handle found ⟨owner, isLabel, owns, linked⟩ edges next isNext
      rcases faultless.owns_of_successors wellFormed isLabel owns edges isNext with
        ownsNext | ⟨other, isOther, hasClosure, rfl⟩
      · exact ⟨owner, isLabel, ownsNext, linked⟩
      · exact ⟨other, isOther, .inl rfl, .step linked isLabel hasClosure⟩
  obtain ⟨owner, isLabel, owns, linked⟩ := belongs
  rwa [faultless.eq_of_owns_node wellFormed member isLabel owns]

end Faultless

/-- The names of labels can be resolved, and this gives the labels with these names. -/
theorem exists_mapM_resolve (wellFormed : program.WellFormed) {others : List Label}
    (known : ∀ other ∈ others, other.name ∈ program.names) :
    ∃ found, others.mapM (fun other => program.resolve other.name) = .ok found ∧
      ∀ label, label ∈ found ↔ label ∈ program.labels ∧ label.name ∈ others.map (·.name) := by
  obtain ⟨found, resolved⟩ : ∃ found, others.mapM (fun other => program.resolve other.name) =
      .ok found := by
    apply Results.exists_mapM_eq_ok
    intro other member
    obtain ⟨label, present⟩ := mem_names_iff.mp (known other member)
    exact ⟨label, resolve_eq_ok_iff.mpr present⟩
  have pointwise := Results.mapM_eq_ok_iff.mp resolved
  refine ⟨found, resolved, fun label => ⟨fun member => ?_, fun ⟨member, named⟩ => ?_⟩⟩
  · obtain ⟨other, isOther, present⟩ := Results.exists_left_of_mem pointwise member
    rw [resolve_eq_ok_iff] at present
    refine ⟨mem_of_find? present, ?_⟩
    rw [name_of_find? present]
    exact List.mem_map_of_mem isOther
  · obtain ⟨other, isOther, same⟩ := List.mem_map.mp named
    obtain ⟨root, isRoot, present⟩ := Results.exists_right_of_mem pointwise isOther
    rw [resolve_eq_ok_iff, same, find?_of_mem wellFormed.names member] at present
    cases present
    exact isRoot

/-- Which labels of a simplified program are reachable from the external ones: those that closures
lead to. All of them are if the labels whose parameters a reachable body reads are reachable. -/
theorem simplify_reachable {program simplified : Program} (wellFormed : program.WellFormed)
    (success : program.simplify = .ok simplified) :
    ∃ roots order,
      program.externals.mapM (fun external => simplified.resolve external.name) = .ok roots ∧
      simplified.reachable (roots.map (·.node)) = .ok order ∧
      (∀ label ∈ simplified.labels, label.node ∈ order ↔
        simplified.Linked simplified.table.HasClosure (program.externals.map (·.name)) label.name) ∧
      ((∀ label ∈ simplified.labels, label.node ∈ order → ∀ owner ∈ simplified.labels,
          simplified.table.HasParameter label.body owner.name → owner.node ∈ order) →
        ∀ label ∈ simplified.labels, label.node ∈ order) := by
  obtain ⟨rfl, ran⟩ := simplify_eq_ok success
  obtain ⟨all, finished, -⟩ := Simplify.importProgram_run ran
  have closedProgram := finished.wellFormed
  have faultless := finished.faultless wellFormed (Simplify.checked_importProgram wellFormed ran)
  obtain ⟨roots, resolved, mem_roots⟩ :=
    exists_mapM_resolve closedProgram fun _ => Simplify.mem_names_of_external ran
  have start : ∀ root ∈ roots.map (·.node), ∃ label ∈ program.importState.program.labels,
      label.name ∈ program.externals.map (·.name) ∧ root = label.node := by
    intro root isRoot
    obtain ⟨label, isLabel, rfl⟩ := List.mem_map.mp isRoot
    obtain ⟨member, isName⟩ := (mem_roots label).mp isLabel
    exact ⟨label, member, isName, rfl⟩
  obtain ⟨order, reachable, atRoots, closed⟩ := faultless.exists_reachable closedProgram
    fun root isRoot => by
      obtain ⟨label, isLabel, -, rfl⟩ := start root isRoot
      exact ⟨label, isLabel, .inl rfl⟩
  have rootsReached : ∀ label ∈ program.importState.program.labels,
      label.name ∈ program.externals.map (·.name) → label.node ∈ order :=
    fun label member isName => atRoots _ (List.mem_map_of_mem ((mem_roots label).mpr ⟨member, isName⟩))
  have followed : ∀ label ∈ program.importState.program.labels, label.node ∈ order →
      ∀ other ∈ program.importState.program.labels,
        program.importState.program.table.HasClosure label.body other.name → other.node ∈ order :=
    fun label member reached other isLabel =>
      faultless.node_mem_of_hasClosure closedProgram closed member reached isLabel
  refine ⟨roots, order, resolved, reachable, fun label member => ⟨?_, ?_⟩, ?_⟩
  · exact faultless.linked_of_node_mem closedProgram reachable start member
  · exact fun linked => linked.node_mem rootsReached followed label member rfl
  · intro ownersReached label member
    have linked := (Simplify.mem_names_iff_linked ran).mp (List.mem_map_of_mem member)
    refine linked.node_mem rootsReached ?_ label member rfl
    intro label member reached other isLabel mentions
    rcases Table.mentions_iff.mp mentions with hasClosure | hasParameter
    · exact followed label member reached other isLabel hasClosure
    · exact ownersReached label member reached other isLabel hasParameter

/-- In the simplified form of the reducible program the closure of `g` is left in `f`, so all three
labels are reachable. -/
theorem simplify_reachable_reducible :
    let program := Samples.reducible
    let simplified := program.importState.program
    program.WellFormed ∧ program.simplify = .ok simplified ∧ simplified.names = ["f", "ret", "g"] ∧
    ∃ roots order,
      program.externals.mapM (fun external => simplified.resolve external.name) = .ok roots ∧
      simplified.reachable (roots.map (·.node)) = .ok order ∧
      ∀ label ∈ simplified.labels, label.node ∈ order := by
  intro program simplified
  obtain ⟨wellFormed, success, kept, rootNames, label, isLabel, isName, closure⟩ :
      program.WellFormed ∧ program.simplify = .ok simplified ∧
      simplified.names = ["f", "ret", "g"] ∧ program.externals.map (·.name) = ["f", "ret"] ∧
      ∃ label ∈ simplified.labels, label.name = "f" ∧ ∃ part ∈ simplified.table.parts label.body,
        simplified.table.get? part = some (.abstraction "g") := by decide +kernel
  obtain ⟨roots, order, resolved, reachable, reached, -⟩ := simplify_reachable wellFormed success
  refine ⟨wellFormed, success, kept, roots, order, resolved, reachable, fun other isOther => ?_⟩
  rw [reached other isOther, rootNames]
  have named : other.name ∈ simplified.names := List.mem_map_of_mem isOther
  rw [kept] at named
  by_cases isRoot : other.name ∈ ["f", "ret"]
  · exact .root isRoot
  · have last : other.name = "g" := by simp_all
    rw [last]
    exact .step (.root (by simp [isName])) isLabel closure

end Program

/-- A label `f(k)` that calls `k` with the parameter of `g`, and a label `g` that calls itself. -/
def Samples.borrowing : Program :=
  let steps : BuildM Unit := do
    let k ← Build.parameter "f" 0
    let x ← Build.parameter "g" 0
    let _ ← Build.define "f" [.fn [.int]] (← Build.call k [x]) true
    let _ ← Build.define "g" [.int] (← Build.call (← Build.reference "g") [x])
  (Build.run steps).toOption.getD {}

/-- A parameter keeps the label `g` alive, although it is not reachable from the external label. -/
theorem Program.simplify_unreachable_borrowing :
    let program := Samples.borrowing
    let simplified := program.importState.program
    program.WellFormed ∧ program.typeCheck = .ok () ∧ program.simplify = .ok simplified ∧
    (program.externals.mapM (fun external => simplified.resolve external.name)).bind
      (fun roots => simplified.reachable (roots.map (·.node))) = .ok [3, 2, 0, 1] ∧
    ∃ label ∈ simplified.labels, label.name = "g" ∧ label.node ∉ [3, 2, 0, 1] := by
  decide +kernel

end CpsGraph
