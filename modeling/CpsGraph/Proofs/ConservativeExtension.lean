import CpsGraph.Proofs.AgreeingRuns
import CpsGraph.Proofs.RunPaths
import CpsGraph.Proofs.SpecializationOutcomes
import CpsGraph.Samples

/-! # Specialization is a conservative extension

Specializing a label adds nodes and labels to a program and touches nothing else. The bodies of a
program that passes validation mention labels of this program only, so none of the new labels can be
entered from the old ones: all runs of old labels stay the same.
-/

namespace CpsGraph.Program

variable {program specialized : Program} {newName : Name} {signature : Signature}
  {substitution : Substitution} {continuations : List Name}

/-- The program agrees with its extension on all of its labels. -/
theorem ExtendedBy.agreeOn (extended : program.ExtendedBy specialized newName signature continuations)
    (wellFormed : program.WellFormed) (resolved : program.Resolved) :
    AgreeOn (· ∈ program.names) program specialized where
  wellFormed := wellFormed
  otherWellFormed := extended.wellFormed
  labels name known := by
    obtain ⟨label, found⟩ := mem_names_iff.mp known
    obtain ⟨node, present, -⟩ := (wellFormed.registered found).body
    rw [found, extended.find?_old found]
    exact .some ⟨rfl, Table.alike_of_extends extended.growth wellFormed.table
      (Table.lt_size_of_get? present)⟩
  named _ := id
  mentioned _ member _ := resolved.mem_names_of_mentions member

/-- Specialization keeps the nodes and the labels of a program and adds labels with new names, and
every run that starts at an old label with closures of old labels ends as before. It fails only if the
program does not pass validation, has no such label or already has the new name, or if a body is
replaced by a node that is none. -/
theorem specialize_conservative (wellFormed : program.WellFormed)
    (inRange : substitution.InRange program.size) (entry newName : Name) (signature : Signature) :
    (∀ specialized, program.specialize entry newName signature substitution = .ok specialized →
      program.table.nodes.toList <+: specialized.table.nodes.toList ∧
      (∃ scope new clones, program.scope entry = .ok scope ∧
        specialized.labels = program.labels ++ new :: clones ∧
        new.name = newName ∧ new.signature = signature ∧ new.external = false ∧
        List.Forall₂ (fun name clone => ∃ original, program.find? name = some original ∧
          clone.signature = original.signature ∧ clone.external = false) scope.continuations clones) ∧
      specialized.names.Nodup ∧
      ∀ start ∈ program.names, ∀ arguments : List Value,
        (∀ argument ∈ arguments, argument.Within (· ∈ program.names) fun _ => True) →
        ∀ halts limit, specialized.run start arguments halts limit =
          program.run start arguments halts limit) ∧
    ∀ fault, program.specialize entry newName signature substitution = .error fault →
      program.validate = .error fault ∨
      fault = .unboundName entry ∧ entry ∉ program.names ∨
      fault = .duplicateLabel newName ∧ newName ∈ program.names ∨
      ∃ name kind, fault = .notABody name kind := by
  rcases specialize_cases wellFormed inRange entry newName signature with
    ⟨scope, specialized, hasScope, success, extended⟩ | ⟨fault, failure, reason⟩
  · rw [success]
    refine ⟨?_, nofun⟩
    rintro _ ⟨⟩
    obtain ⟨uses, -, used, -⟩ := scope_eq_ok hasScope
    have resolved := (validate_eq_ok_iff wellFormed).mp (validate_of_uses used)
    have agree := extended.agreeOn wellFormed resolved
    obtain ⟨new, clones, added⟩ := extended.labels
    refine ⟨Table.extends_iff_isPrefix.mp extended.growth, ⟨scope, new, clones, hasScope, added⟩,
      extended.wellFormed.names, fun start known arguments within halts limit => ?_⟩
    exact (agree.run_eq (fun _ _ => trivial) known within halts limit).symm
  · rw [failure]
    refine ⟨nofun, ?_⟩
    rintro _ ⟨⟩
    rcases reason with invalid | ⟨-, ⟨unknown, rfl⟩ | ⟨-, taken, rfl⟩ | ⟨-, -, noBody⟩⟩
    · exact .inl invalid
    · exact .inr (.inl ⟨rfl, unknown⟩)
    · exact .inr (.inr (.inl ⟨rfl, taken⟩))
    · exact .inr (.inr (.inr noBody))

/-- The helper of the factorial specialized to the number five: the factorial of any other number is
still computed by the old labels. -/
theorem specialize_conservative_factorial :
    let plan : List Argument := [.passed 0, .passed 1, .fixed (.int 5), .passed 2]
    let prepared := (Samples.tailFactorialWithReturn.toOption.getD {}).prepare "help5" plan
    let program := prepared.2
    let substitution : Substitution :=
      ((program.find? "help").getD default).parameters.zip prepared.1
    let specialized := (program.specialize "help" "help5" [.int, .int, .fn [.int]]
      substitution).toOption.getD {}
    let arguments := [.literal (.int 4), .closure "ret" []]
    program.WellFormed ∧ substitution.InRange program.size ∧
    program.specialize "help" "help5" [.int, .int, .fn [.int]] substitution = .ok specialized ∧
    program.table.nodes.toList <+: specialized.table.nodes.toList ∧
    specialized.names.Nodup ∧
    (∀ argument ∈ arguments, argument.Within (· ∈ program.names) fun _ => True) ∧
    specialized.run "fac" arguments ["ret"] none = some (.ok ⟨"ret", [.literal (.int 24)], 12⟩) ∧
    program.specialize "help" "fac" [] substitution = .error (.duplicateLabel "fac") ∧
    "fac" ∈ program.names := by
  intro plan prepared program substitution specialized arguments
  obtain ⟨wellFormed, inRange, success, start, halt, ran, taken, ordinary⟩ :
      program.WellFormed ∧ substitution.InRange program.size ∧
      program.specialize "help" "help5" [.int, .int, .fn [.int]] substitution = .ok specialized ∧
      "fac" ∈ program.names ∧ "ret" ∈ program.names ∧
      program.runWithin "fac" arguments ["ret"] stepCeiling =
        .ok ⟨"ret", [.literal (.int 24)], 12⟩ ∧
      program.specialize "help" "fac" [] substitution = .error (.duplicateLabel "fac") ∧
      program.validate = .ok () := by decide +kernel
  have within : ∀ argument ∈ arguments, argument.Within (· ∈ program.names) fun _ => True := by
    simp only [arguments, List.forall_mem_cons, List.not_mem_nil, IsEmpty.forall_iff, implies_true,
      and_true]
    exact ⟨.literal _, .closure halt nofun nofun⟩
  obtain ⟨grown, -, distinct, same⟩ :=
    (specialize_conservative wellFormed inRange "help" "help5" _).1 specialized success
  refine ⟨wellFormed, inRange, success, grown, distinct, within, ?_, taken, ?_⟩
  · rw [same "fac" start arguments within]
    exact run_eq_halt_iff.mpr ⟨ran, by decide⟩
  · rcases (specialize_conservative wellFormed inRange "help" "fac" []).2 _ taken with
      invalid | ⟨unbound, -⟩ | ⟨-, known⟩ | ⟨_, _, noBody⟩
    · rw [ordinary] at invalid
      cases invalid
    · cases unbound
    · exact known
    · cases noBody

end CpsGraph.Program
