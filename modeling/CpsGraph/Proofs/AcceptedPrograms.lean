import CpsGraph.Client.Program
import CpsGraph.Proofs.CallGraphs
import CpsGraph.Proofs.ImportedParts
import CpsGraph.Proofs.SpecializationOutcomes
import CpsGraph.Proofs.SurvivingLabels
import CpsGraph.Proofs.TypeChecking
import CpsGraph.Samples

/-! # Accepted programs

A program with correct types passes all analyses and transformations: it is valid, so the names in
its bodies are labels and the branches have three arguments, and nothing else can stop a traversal, a
drawing or a simplification.
-/

namespace CpsGraph.Program

variable {program : Program} {handle : Handle}

section Drawing

variable (wellFormed : program.WellFormed) (resolved : program.Resolved)

include wellFormed resolved

/-- Drawing goes from reached nodes to reached nodes. -/
theorem Reached.exists_dotEdges (reached : program.Reached handle) :
    ∃ found, Search.edgesBelow program.size program.dotEdges handle = .ok found ∧
      ∀ next ∈ found, program.Reached next := by
  obtain ⟨_, edges⟩ := resolved handle reached
  obtain ⟨node, present, leads⟩ := successors_eq_ok_iff.mp edges
  have success : ∃ found, program.dotEdges handle = .ok found ∧
      ∀ next ∈ found, program.Reached next := by
    unfold dotEdges
    rw [Table.get_eq_ok_iff.mpr present]
    cases leads with
    | continuation found =>
      refine ⟨_, Results.bind_eq_ok_iff.mpr ⟨_, rfl, Results.bind_eq_ok_iff.mpr
        ⟨_, resolve_eq_ok_iff.mpr found, rfl⟩⟩, fun next isNext => ?_⟩
      rcases List.mem_append.mp isNext with isParameter | isBody
      · exact ⟨_, mem_of_find? found, .inr (.inl isParameter)⟩
      · exact reached.child wellFormed present isBody
    | abstraction found =>
      exact ⟨_, Results.bind_eq_ok_iff.mpr ⟨_, rfl, Results.bind_eq_ok_iff.mpr
        ⟨_, resolve_eq_ok_iff.mpr found, rfl⟩⟩, List.forall_mem_singleton.mpr
          ⟨_, mem_of_find? found, .inl rfl⟩⟩
    | parameter known =>
      obtain ⟨other, known⟩ := known
      obtain ⟨target, found, -⟩ := parameter_eq_ok_iff.mp known
      exact ⟨_, Results.bind_eq_ok_iff.mpr ⟨_, rfl, Results.bind_eq_ok_iff.mpr ⟨other, known,
        Results.bind_eq_ok_iff.mpr ⟨target, resolve_eq_ok_iff.mpr found, rfl⟩⟩⟩,
        List.forall_mem_singleton.mpr ⟨target, mem_of_find? found, .inl rfl⟩⟩
    | _ => exact ⟨_, rfl, fun next => reached.child wellFormed present⟩
  obtain ⟨found, success, allReached⟩ := success
  exact ⟨found, Search.edgesBelow_eq_ok_iff.mpr ⟨reached.lt_size wellFormed, success⟩, allReached⟩

/-- A resolved program can be drawn. -/
theorem toDot_eq_ok : program.toDot = .ok program.dotText := by
  have start : ∀ handle ∈ program.dotRoots, program.Reached handle := by
    intro handle isRoot
    obtain ⟨label, member, rfl⟩ := List.mem_map.mp isRoot
    refine ⟨label, ?_, .inl rfl⟩
    split_ifs at member
    · exact member
    · exact (List.mem_filter.mp member).1
  have faultless : program.dotWalk.fault = none :=
    Search.fault_eq_none start fun _ reached => reached.exists_dotEdges wellFormed resolved
  rw [toDot, faultless]

end Drawing

/-- A program with correct types passes validation, has users, scopes, a call graph and drawings of
both, can be simplified, and can be specialized unless the new name is in use or a body is replaced
by a node that is none. -/
theorem typeCheck_accepted (wellFormed : program.WellFormed) (checked : program.typeCheck = .ok ()) :
    program.validate = .ok () ∧
    (∃ uses, program.uses = .ok uses) ∧
    (∀ name ∈ program.names, ∃ scope, program.scope name = .ok scope) ∧
    (∃ graph, program.callGraph = .ok graph ∧
      Client.Query.callGraphDot.serve program = .ok (.text graph.toDot, program)) ∧
    (∃ simplified stats, program.simplifyStats = .ok (simplified, stats) ∧
      program.simplify = .ok simplified) ∧
    program.toDot = .ok program.dotText ∧
    ∀ entry ∈ program.names, ∀ substitution : Substitution, substitution.InRange program.size →
      ∀ newName signature,
        (∃ specialized, program.specialize entry newName signature substitution = .ok specialized) ∨
        newName ∈ program.names ∧
          program.specialize entry newName signature substitution = .error (.duplicateLabel newName) ∨
        ∃ name kind,
          program.specialize entry newName signature substitution = .error (.notABody name kind) := by
  have valid := ((typeCheck_eq_ok_iff wellFormed).mp checked).valid wellFormed
  have resolved := valid.resolved wellFormed
  have validated := (validate_eq_ok_iff wellFormed).mpr resolved
  refine ⟨validated, ?_, ?_, ?_, ?_, toDot_eq_ok wellFormed resolved, ?_⟩
  · obtain ⟨uses, used, -⟩ := resolved.exists_uses wellFormed
    exact ⟨uses, used⟩
  · intro name known
    obtain ⟨label, found⟩ := mem_names_iff.mp known
    obtain ⟨scope, success, -⟩ := resolved.exists_scope wellFormed found
    exact ⟨scope, success⟩
  · obtain ⟨graph, success⟩ := exists_callGraph wellFormed resolved
    refine ⟨graph, success, ?_⟩
    rw [Client.Query.serve, success]
    rfl
  · obtain ⟨later, ran⟩ := Simplify.exists_importProgram wellFormed (valid.faultless wellFormed)
    exact ⟨_, _, simplifyStats_of_run ran, simplify_of_run ran⟩
  · intro entry known substitution inRange newName signature
    rcases specialize_cases wellFormed inRange entry newName signature with
      ⟨-, specialized, -, success, -⟩ | ⟨fault, failure, reason⟩
    · exact .inl ⟨specialized, success⟩
    · rcases reason with invalid | ⟨-, ⟨unknown, -⟩ | ⟨-, taken, rfl⟩ | ⟨-, -, name, kind, rfl⟩⟩
      · rw [validated] at invalid
        cases invalid
      · exact absurd known unknown
      · exact .inr (.inl ⟨taken, failure⟩)
      · exact .inr (.inr ⟨name, kind, failure⟩)

/-- The factorial is accepted; specializing its helper under its own name or with a literal for its
body is refused for these reasons. -/
theorem typeCheck_accepted_factorial :
    let program := Samples.tailFactorialWithReturn.toOption.getD {}
    let help := (program.find? "help").getD default
    let number := (program.table.find? (.quote (.int 1))).getD 0
    program.WellFormed ∧ program.typeCheck = .ok () ∧ program.validate = .ok () ∧
    (∃ scope, program.scope "help" = .ok scope) ∧ (∃ graph, program.callGraph = .ok graph) ∧
    (∃ simplified, program.simplify = .ok simplified) ∧ program.toDot = .ok program.dotText ∧
    Substitution.InRange [(help.body, number)] program.size ∧
    program.specialize "help" "help" help.signature [] = .error (.duplicateLabel "help") ∧
    program.specialize "help" "one" help.signature [(help.body, number)] =
      .error (.notABody "one" .quote) := by
  intro program help number
  obtain ⟨wellFormed, checked, known, inRange, duplicate, noBody⟩ :
      program.WellFormed ∧ program.typeCheck = .ok () ∧ "help" ∈ program.names ∧
      Substitution.InRange [(help.body, number)] program.size ∧
      program.specialize "help" "help" help.signature [] = .error (.duplicateLabel "help") ∧
      program.specialize "help" "one" help.signature [(help.body, number)] =
        .error (.notABody "one" .quote) := by decide +kernel
  obtain ⟨validated, -, scopes, ⟨graph, built, -⟩, ⟨simplified, -, -, success⟩, drawn, -⟩ :=
    typeCheck_accepted wellFormed checked
  exact ⟨wellFormed, checked, validated, scopes "help" known, ⟨graph, built⟩, ⟨simplified, success⟩,
    drawn, inRange, duplicate, noBody⟩

end CpsGraph.Program
