import CpsGraph.Proofs.NormalForms
import CpsGraph.Proofs.SurvivingLabels

/-! # Simplifying twice

A simplified program is in normal form and has its external labels first, so simplifying it again
imports every body as it is and finds the labels in the order that they already have.
-/

namespace CpsGraph

namespace Simplify

variable {old program : Program} {state later : State} {queue done all : List Name}

/-! ## The order of the labels -/

namespace Discovers

/-- What is done comes first. -/
theorem exists_append (discovers : Discovers program queue done all) :
    ∃ rest, all = done.reverse ++ rest := by
  induction discovers with
  | finished => exact ⟨[], (List.append_nil _).symm⟩
  | skip _ _ ih => exact ih
  | visit _ _ _ _ ih =>
    obtain ⟨rest, rfl⟩ := ih
    exact ⟨_, by rw [List.reverse_cons, List.append_assoc]⟩

/-- The names at the front of the queue come next, if they are new and different. -/
theorem exists_append_roots {roots : List Name}
    (discovers : Discovers program (roots ++ queue) done all) (distinct : roots.Nodup)
    (fresh : ∀ root ∈ roots, root ∉ done) :
    ∃ rest, all = done.reverse ++ roots ++ rest := by
  induction roots generalizing queue done with
  | nil => simpa using discovers.exists_append
  | cons root roots ih =>
    obtain ⟨first, distinct⟩ := List.nodup_cons.mp distinct
    cases discovers with
    | skip known => exact absurd known (fresh root List.mem_cons_self)
    | visit _ found listed rest =>
      change Discovers program (roots ++ queue ++ _) (root :: done) all at rest
      rw [List.append_assoc] at rest
      have freshRest : ∀ other ∈ roots, other ∉ root :: done := by
        intro other member known
        rcases List.mem_cons.mp known with rfl | isDone
        · exact first member
        · exact fresh other (List.mem_cons_of_mem _ member) isDone
      obtain ⟨last, rfl⟩ := ih rest distinct freshRest
      exact ⟨last, by simp⟩

end Discovers

/-- Simplification keeps the external labels in their order. -/
theorem names_externals (wellFormed : old.WellFormed)
    (ran : (importProgram old).run {} = .ok () later) :
    later.program.externals.map (·.name) = old.externals.map (·.name) := by
  obtain ⟨all, finished, -⟩ := importProgram_run ran
  -- The external labels come first, and no other label is marked.
  have distinct : (old.externals.map (·.name)).Nodup :=
    wellFormed.names.sublist (List.filter_sublist.map _)
  have discovers := discovers_importProgram ran
  rw [← List.append_nil (old.externals.map (·.name))] at discovers
  obtain ⟨rest, split⟩ := discovers.exists_append_roots distinct fun _ _ => List.not_mem_nil
  have marked : ∀ label ∈ later.program.labels,
      label.external = decide (label.name ∈ old.externals.map (·.name)) := by
    intro label member
    obtain ⟨original, found, -, mark, -⟩ := finished.labels label member
    rw [mark, Bool.eq_iff_iff, decide_eq_true_eq, List.mem_map]
    constructor
    · intro isExternal
      exact ⟨original, List.mem_filter.mpr ⟨Program.mem_of_find? found, isExternal⟩,
        Program.name_of_find? found⟩
    · rintro ⟨external, isExternal, same⟩
      obtain ⟨isLabel, isMarked⟩ := List.mem_filter.mp isExternal
      have foundToo := Program.find?_of_mem wellFormed.names isLabel
      rw [same, found] at foundToo
      cases foundToo
      exact isMarked
  generalize old.externals.map (·.name) = roots at split marked distinct ⊢
  have names := finished.wellFormed.names
  calc later.program.externals.map (·.name)
      = (later.program.labels.filter fun label => label.name ∈ roots).map (·.name) := by
        rw [Program.externals, List.filter_congr marked]
    _ = later.program.names.filter (· ∈ roots) := by
        rw [Program.names, List.filter_map]
        rfl
    _ = roots := by
        rw [split] at names ⊢
        have apart : roots.Disjoint rest := List.disjoint_of_nodup_append (by simpa using names)
        have others : rest.filter (· ∈ roots) = [] := by
          apply List.filter_eq_nil_iff.mpr
          intro name member
          simpa using fun isRoot => apart isRoot member
        simp [List.filter_append, others]

/-! ## Importing a program in normal form -/

/-- The bodies of a simplified program are in normal form. -/
theorem Importing.normalForm (wellFormed : old.WellFormed) (finished : Importing old [] all state)
    (checked : Checked old state.imported) {label : Label} (member : label ∈ state.program.labels) :
    NormalForm state.program.table label.body := by
  intro part inside
  obtain ⟨original, -, -, -, pair⟩ := finished.labels label member
  obtain ⟨node, present, -, normal⟩ :=
    throughout_settled wellFormed.table finished.faithful checked pair part inside
  exact ⟨node, present, normal⟩

end Simplify

namespace Program

/-- Simplifying a simplified program succeeds and gives an equal program with the labels in the same
order; nothing is folded, collapsed or dropped. -/
theorem simplify_idempotent {program simplified : Program} (wellFormed : program.WellFormed)
    (success : program.simplify = .ok simplified) :
    ∃ again stats, simplified.simplifyStats = .ok (again, stats) ∧ again.same simplified = true ∧
      again.names = simplified.names ∧ stats.folded = 0 ∧ stats.collapsed = 0 ∧ stats.dropped = 0 := by
  obtain ⟨rfl, ran⟩ := simplify_eq_ok success
  obtain ⟨all, finished, -⟩ := Simplify.importProgram_run ran
  have checked := Simplify.checked_importProgram wellFormed ran
  have closed := finished.wellFormed
  have normalForms : ∀ label ∈ program.importState.program.labels,
      Simplify.NormalForm program.importState.program.table label.body :=
    fun _ => finished.normalForm wellFormed checked
  have viable := Simplify.viable_of_normalForms closed (finished.faultless wellFormed checked)
    normalForms fun _ member _ => finished.mem_names member
  obtain ⟨later, ranAgain, accounted, -⟩ := viable.exists_importProgram closed
  obtain ⟨allAgain, finishedAgain, -⟩ := Simplify.importProgram_run ranAgain
  have alike : ∀ label ∈ later.program.labels, ∃ original,
      program.importState.program.find? label.name = some original ∧
      label.signature = original.signature ∧ label.external = original.external ∧
      later.program.table.Alike program.importState.program.table label.body original.body := by
    intro label member
    obtain ⟨original, found, signature, external, pair⟩ := finishedAgain.labels label member
    refine ⟨original, found, signature, external, Table.Alike.symm closed.table ?_⟩
    exact Simplify.alike_of_normalForm closed.table finishedAgain.faithful
      (normalForms original (mem_of_find? found)) pair
  have names : later.program.names = program.importState.program.names := by
    have discovers := Simplify.discovers_importProgram ranAgain
    rw [Simplify.names_externals wellFormed ran] at discovers
    refine Simplify.Discovers.unique (discovers.transfer ?_) (Simplify.discovers_importProgram ran)
    intro name label found
    obtain ⟨original, foundOld, -, -, alike⟩ := alike label (mem_of_find? found)
    rw [name_of_find? found] at foundOld
    refine ⟨original, foundOld, (Simplify.mentions_eq_of_alike finishedAgain.wellFormed.table
      closed.table alike).symm⟩
  have length : later.program.labels.length = program.importState.program.labels.length := by
    simpa [Program.names] using congrArg List.length names
  obtain ⟨folded, collapsed⟩ := accounted.counts_of_normalForms closed.table fun _ => And.right
  refine ⟨later.program, _, simplifyStats_of_run ranAgain, ?_, names, folded, collapsed, ?_⟩
  · exact same_of_alike length alike
  · simp [length]

/-- What is left of the reducible program cannot be reduced further. -/
theorem simplify_idempotent_reducible :
    let program := Samples.reducible
    let simplified := program.importState.program
    program.WellFormed ∧ program.simplify = .ok simplified ∧ simplified.names = ["f", "ret", "g"] ∧
    ∃ again stats, simplified.simplifyStats = .ok (again, stats) ∧ again.same simplified = true ∧
      again.names = ["f", "ret", "g"] ∧ stats.folded = 0 ∧ stats.collapsed = 0 ∧ stats.dropped = 0 := by
  intro program simplified
  obtain ⟨wellFormed, success, kept⟩ :
      program.WellFormed ∧ program.simplify = .ok simplified ∧
      simplified.names = ["f", "ret", "g"] := by decide +kernel
  refine ⟨wellFormed, success, kept, ?_⟩
  rw [← kept]
  exact simplify_idempotent wellFormed success

end Program

end CpsGraph
