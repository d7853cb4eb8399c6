import CpsGraph.Proofs.ImportedParts
import CpsGraph.Proofs.StructuralEquality

/-! # The labels that survive simplification

Labels are imported from a worklist, so they come in the order of a breadth-first search over the
bodies of the simplified program: `Simplify.Discovers` describes this search without the program
that was imported. The labels that are found are those to which a chain of mentions leads from an
external label, neither more nor fewer.
-/

namespace CpsGraph

/-- The names that references in bodies lead to, beginning with some roots. -/
inductive Program.Linked (program : Program) (Refers : Handle → Name → Prop) (roots : List Name) :
    Name → Prop
  | root {name : Name} (isRoot : name ∈ roots) : Linked program Refers roots name
  | step {label : Label} {name : Name} (linked : Linked program Refers roots label.name)
      (member : label ∈ program.labels) (refers : Refers label.body name) :
      Linked program Refers roots name

namespace Simplify

/-- The names that a worklist finds in a program, in order: those that are done, and then those in
the queue together with what their bodies mention. -/
inductive Discovers (program : Program) : (queue done all : List Name) → Prop
  | finished {done : List Name} : Discovers program [] done done.reverse
  | skip {name : Name} {queue done all : List Name} (known : name ∈ done)
      (rest : Discovers program queue done all) : Discovers program (name :: queue) done all
  | visit {name : Name} {queue done mentioned all : List Name} {label : Label} (fresh : name ∉ done)
      (found : program.find? name = some label)
      (listed : mentions program.table label.body = .ok mentioned)
      (rest : Discovers program (queue ++ mentioned) (name :: done) all) :
      Discovers program (name :: queue) done all

variable {old program other : Program} {state later : State} {queue done all : List Name}

namespace Discovers

/-- A worklist finds the names in one order only. -/
theorem unique {others : List Name} (discovers : Discovers program queue done all)
    (discoversToo : Discovers program queue done others) : all = others := by
  induction discovers with
  | finished =>
    cases discoversToo
    rfl
  | skip known _ ih =>
    cases discoversToo with
    | skip _ rest => exact ih rest
    | visit fresh => exact absurd known fresh
  | visit fresh found listed _ ih =>
    cases discoversToo with
    | skip known => exact absurd known fresh
    | visit _ foundToo listedToo rest =>
      rw [found] at foundToo
      cases foundToo
      rw [listed] at listedToo
      cases listedToo
      exact ih rest

/-- What is done can be skipped. -/
theorem of_dropWhile (discovers : Discovers program (queue.dropWhile (· ∈ done)) done all) :
    Discovers program queue done all := by
  induction queue with
  | nil => exact discovers
  | cons name queue ih =>
    by_cases known : name ∈ done
    · simp only [List.dropWhile_cons, known, decide_true, if_true] at discovers
      exact .skip known (ih discovers)
    · simp only [List.dropWhile_cons, known, decide_false, Bool.false_eq_true, if_false] at discovers
      exact discovers

/-- The search is the same in a program whose bodies mention the same names in the same order. -/
theorem transfer (discovers : Discovers program queue done all)
    (same : ∀ name label, program.find? name = some label → ∃ original,
      other.find? name = some original ∧
        mentions other.table original.body = mentions program.table label.body) :
    Discovers other queue done all := by
  induction discovers with
  | finished => exact .finished
  | skip known _ ih => exact .skip known ih
  | visit fresh found listed _ ih =>
    obtain ⟨original, foundToo, lists⟩ := same _ _ found
    exact .visit fresh foundToo (lists.trans listed) ih

/-- Only what the roots lead to is found. -/
theorem linked {roots : List Name} (wellFormed : program.WellFormed)
    (discovers : Discovers program queue done all)
    (queued : ∀ name ∈ queue, program.Linked program.table.Mentions roots name)
    (before : ∀ name ∈ done, program.Linked program.table.Mentions roots name) :
    ∀ name ∈ all, program.Linked program.table.Mentions roots name := by
  induction discovers with
  | finished => exact fun name member => before name (List.mem_reverse.mp member)
  | skip _ _ ih => exact ih (fun name member => queued name (List.mem_cons_of_mem _ member)) before
  | visit fresh found listed _ ih =>
    have first := queued _ List.mem_cons_self
    apply ih
    · intro name member
      rcases List.mem_append.mp member with waiting | new
      · exact queued name (List.mem_cons_of_mem _ waiting)
      · obtain ⟨_, present, -⟩ := (wellFormed.registered found).body
        obtain ⟨_, listedToo, sound⟩ :=
          exists_mentions wellFormed.table (Table.lt_size_of_get? present)
        rw [listed] at listedToo
        cases listedToo
        rw [← Program.name_of_find? found] at first
        exact .step first (Program.mem_of_find? found) (sound name new)
    · exact List.forall_mem_cons.mpr ⟨first, before⟩

end Discovers

/-- Importing labels finds them in the order in which the worklist finds them in the result. -/
theorem discovers_importLabels {rounds : Nat} (importing : Importing old queue done state)
    (enough : old.labels.length < rounds + done.length)
    (ran : (importLabels old rounds queue done).run state = .ok () later) :
    later.program.WellFormed ∧ later.program.table.Extends state.program.table ∧
      state.program.labels ⊆ later.program.labels ∧
      Discovers later.program queue done later.program.names := by
  refine importLabels_induction (motive := fun queue done state =>
    later.program.WellFormed ∧ later.program.table.Extends state.program.table ∧
      state.program.labels ⊆ later.program.labels ∧
      Discovers later.program queue done later.program.names) ?_ ?_ importing enough ran
  · intro queue done left importing
    refine ⟨importing.wellFormed, Table.extends_refl _, List.Subset.refl _, .of_dropWhile ?_⟩
    rw [left, importing.names]
    exact .finished
  · intro queue done state name rest label mentioned middle left importing found ranLabel ih
    obtain ⟨wellFormed, grown, labels, discovers⟩ := ih
    have step := importLabel_run importing found ranLabel
    obtain ⟨newLabel, appended, hasName, -, listed, growth⟩ :=
      exists_newLabel importing found ranLabel
    have isNew : newLabel ∈ middle.program.labels := by simp [appended]
    refine ⟨wellFormed, grown.trans growth, fun other member => labels ?_, .of_dropWhile ?_⟩
    · simp [appended, member]
    · rw [left]
      -- The body mentions the same names in the table at the end as when it was imported.
      obtain ⟨_, present, -⟩ := (step.wellFormed.labels newLabel isNew).body
      have alike := Table.alike_of_extends grown step.wellFormed.table (Table.lt_size_of_get? present)
      rw [mentions_eq_of_alike step.wellFormed.table wellFormed.table alike] at listed
      have foundNew := Program.find?_of_mem wellFormed.names (labels isNew)
      rw [hasName] at foundNew
      exact .visit (Search.not_mem_of_dropWhile_eq_cons left) foundNew listed discovers

theorem discovers_importProgram (ran : (importProgram old).run {} = .ok () later) :
    Discovers later.program (old.externals.map (·.name)) [] later.program.names :=
  (discovers_importLabels (importing_empty old _) (Nat.lt_succ_self _) ran).2.2.2

/-- The labels of a simplified program are those that mentions lead to from the external labels. -/
theorem mem_names_iff_linked (ran : (importProgram old).run {} = .ok () later) {name : Name} :
    name ∈ later.program.names ↔ later.program.Linked later.program.table.Mentions
      (old.externals.map (·.name)) name := by
  obtain ⟨all, finished, externals⟩ := importProgram_run ran
  constructor
  · intro member
    apply (discovers_importProgram ran).linked finished.wellFormed _ nofun name member
    exact fun root isRoot => .root isRoot
  · intro linked
    induction linked with
    | root isRoot =>
      rw [finished.names, List.mem_reverse]
      exact externals isRoot
    | step _ member refers _ => exact finished.mem_names member refers

theorem mem_names_of_external (ran : (importProgram old).run {} = .ok () later) {external : Label}
    (isExternal : external ∈ old.externals) : external.name ∈ later.program.names :=
  (mem_names_iff_linked ran).mpr (.root (List.mem_map_of_mem isExternal))

end Simplify

/-- A label `f` that calls `h`, which is no label. -/
def Samples.dangling : Program :=
  let steps : BuildM Unit := do
    let _ ← Build.define "f" [] (← Build.call (← Build.reference "h") []) true
  (Build.run steps).toOption.getD {}

namespace Program

theorem simplifyStats_eq_ok {program simplified : Program} {stats : SimplifyStats}
    (success : program.simplifyStats = .ok (simplified, stats)) :
    ∃ later, (Simplify.importProgram program).run {} = .ok () later ∧ simplified = later.program ∧
      stats = ⟨later.kept, later.folded, later.collapsed,
        program.labels.length - later.program.labels.length, later.memoHits⟩ := by
  unfold simplifyStats simplifyReport at success
  cases ran : (Simplify.importProgram program).run {} with
  | error fault later =>
    rw [ran] at success
    cases success
  | ok result later =>
    rw [ran] at success
    cases success
    exact ⟨later, rfl, rfl, rfl⟩

/-- Simplification gives the program that was imported. -/
theorem simplifyStats_of_run {program : Program} {later : Simplify.State}
    (ran : (Simplify.importProgram program).run {} = .ok () later) :
    program.simplifyStats = .ok (later.program, ⟨later.kept, later.folded, later.collapsed,
      program.labels.length - later.program.labels.length, later.memoHits⟩) := by
  unfold simplifyStats simplifyReport
  rw [ran]

theorem simplify_of_run {program : Program} {later : Simplify.State}
    (ran : (Simplify.importProgram program).run {} = .ok () later) :
    program.simplify = .ok later.program := by
  rw [simplify, simplifyStats_of_run ran]
  rfl

theorem simplifyStats_eq_error {program : Program} {fault : GraphError}
    (failed : program.simplifyStats = .error fault) :
    ∃ later, (Simplify.importProgram program).run {} = .error fault later := by
  unfold simplifyStats simplifyReport at failed
  cases ran : (Simplify.importProgram program).run {} with
  | error fault later =>
    rw [ran] at failed
    cases failed
    exact ⟨later, rfl⟩
  | ok result later =>
    rw [ran] at failed
    cases failed

/-- What survives simplification, and why simplification fails. The labels of the simplified program
are those that mentions lead to from the external labels, each of them once, with its signature and
its mark, and the program is valid; the statistics count these labels and the dropped ones. A failure
is the fault of a node of a body, unless the table is not one of a program. -/
theorem simplifyStats_survivors :
    (∀ (program simplified : Program) (stats : SimplifyStats), program.WellFormed →
      program.simplifyStats = .ok (simplified, stats) →
      (∀ name, name ∈ simplified.names ↔ simplified.Linked simplified.table.Mentions
        (program.externals.map (·.name)) name) ∧
      simplified.names.Nodup ∧
      (∀ label ∈ simplified.labels, ∃ original, program.find? label.name = some original ∧
        label.signature = original.signature ∧ label.external = original.external) ∧
      simplified.validate = .ok () ∧
      stats.imported = simplified.labels.length ∧
      stats.dropped + simplified.labels.length = program.labels.length) ∧
    (∀ (program : Program) (fault : GraphError),
      (∀ label ∈ program.labels, ∃ node, program.table.get? label.body = some node ∧
        node.isBody = true) →
      program.simplifyStats = .error fault →
      fault.isNodeFault = true ∨
        ∃ handle, fault = .unknownHandle handle ∧ ¬ program.table.WellFormed) := by
  constructor
  · intro program simplified stats wellFormed success
    obtain ⟨later, ran, rfl, rfl⟩ := simplifyStats_eq_ok success
    obtain ⟨all, finished, -⟩ := Simplify.importProgram_run ran
    have checked := Simplify.checked_importProgram wellFormed ran
    refine ⟨fun name => Simplify.mem_names_iff_linked ran, finished.wellFormed.names, ?_,
      (finished.faultless wellFormed checked).validate finished.wellFormed, finished.kept_eq,
      ?_⟩
    · intro label member
      obtain ⟨original, found, signature, external, -⟩ := finished.labels label member
      exact ⟨original, found, signature, external⟩
    · have few := finished.length_done_le
      rw [← finished.kept, finished.kept_eq] at few
      simp only
      omega
  · intro program fault bodies failed
    obtain ⟨later, ran⟩ := simplifyStats_eq_error failed
    have ends := Simplify.ends_importProgram_of_bodies bodies
    rw [ran] at ends
    exact ends

/-- The reducible program loses the label `h`, and a program that names no label where it should cannot
be simplified. -/
theorem simplifyStats_survivors_reducible :
    (let program := Samples.reducible
      let simplified := program.importState.program
      let stats : SimplifyStats := ⟨3, 4, 1, 1, 2⟩
      program.WellFormed ∧ program.simplifyStats = .ok (simplified, stats) ∧
      program.names = ["f", "g", "h", "ret"] ∧
      (∀ name, name ∈ ["f", "ret", "g"] ↔
        simplified.Linked simplified.table.Mentions ["f", "ret"] name) ∧
      simplified.validate = .ok ()) ∧
    (let program := Samples.dangling
      let fault := GraphError.unboundName "h"
      (∀ label ∈ program.labels, ∃ node, program.table.get? label.body = some node ∧
        node.isBody = true) ∧
      program.simplifyStats = .error fault ∧
      (fault.isNodeFault = true ∨
        ∃ handle, fault = .unknownHandle handle ∧ ¬ program.table.WellFormed)) := by
  constructor
  · intro program simplified stats
    obtain ⟨wellFormed, success, names, kept, roots⟩ :
        program.WellFormed ∧ program.simplifyStats = .ok (simplified, stats) ∧
        program.names = ["f", "g", "h", "ret"] ∧ simplified.names = ["f", "ret", "g"] ∧
        program.externals.map (·.name) = ["f", "ret"] := by decide +kernel
    obtain ⟨survivors, -, -, valid, -⟩ :=
      simplifyStats_survivors.1 program simplified stats wellFormed success
    rw [kept, roots] at survivors
    exact ⟨wellFormed, success, names, survivors, valid⟩
  · intro program fault
    have wellFormed : program.WellFormed := by decide +kernel
    have bodies : ∀ label ∈ program.labels, ∃ node, program.table.get? label.body = some node ∧
        node.isBody = true := fun label member => (wellFormed.labels label member).body
    have failed : program.simplifyStats = .error fault := by decide +kernel
    exact ⟨bodies, failed, simplifyStats_survivors.2 program fault bodies failed⟩

end Program

end CpsGraph
