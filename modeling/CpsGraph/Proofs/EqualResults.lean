import CpsGraph.Proofs.EqualAnalyses
import CpsGraph.Proofs.ImportLedger
import CpsGraph.Proofs.SurvivingLabels

/-! # What passes and analyses say about equal programs

Equal programs may list their labels in different orders, so they are imported in different orders.
Still what was imported from one program tells what can be imported from the other: nodes of equal
structure, which are counted alike. So equal programs are simplified to equal programs, with the same
statistics, and no pass or analysis tells equal programs apart.
-/

namespace CpsGraph

/-- Both steps fail, or both succeed with results that are related. -/
def Results.Agree {ε α β : Type} (Related : α → β → Prop) : Except ε α → Except ε β → Prop
  | .ok first, .ok second => Related first second
  | .error _, .error _ => True
  | _, _ => False

theorem Results.agree_of_ok {ε α β : Type} {Related : α → β → Prop} {first : Except ε α}
    {second : Except ε β}
    (forward : ∀ result, first = .ok result → ∃ other, second = .ok other ∧ Related result other)
    (backward : ∀ other, second = .ok other → ∃ result, first = .ok result) :
    Agree Related first second := by
  cases first with
  | ok result =>
    obtain ⟨other, rfl, related⟩ := forward result rfl
    exact related
  | error fault =>
    cases second with
    | error => trivial
    | ok other =>
      obtain ⟨result, failed⟩ := backward other rfl
      cases failed

namespace Program.Equal

variable {left right : Program} {node other : Node}

/-- Nodes of equal structure are at fault alike. -/
theorem unfaulty (equal : Equal left right)
    (parallel : node.Parallel (left.table.Alike right.table) other) (unfaulty : left.Unfaulty node) :
    right.Unfaulty other := by
  cases parallel with
  | branch atArguments => simpa [atArguments.length_eq] using unfaulty
  | abstraction target => exact unfaulty_abstraction.mpr (equal.mem_names (by simpa using unfaulty))
  | parameter target index =>
    exact unfaulty_parameter.mpr (equal.exists_parameter (by simpa using unfaulty))
  | continuation => exact absurd unfaulty not_unfaulty_continuation
  | _ => simp

theorem length_labels (equal : Equal left right) : left.labels.length = right.labels.length := by
  obtain ⟨matching, isPerm, related⟩ := equal.exists_matching
  exact related.length_eq.trans isPerm.length_eq

end Program.Equal

namespace Simplify

open Program (Equal)

variable {left right : Program} {state later : State} {all : List Name}

theorem State.mem_keys_iff {handle : Handle} :
    handle ∈ state.keys ↔ ∃ new, (handle, new) ∈ state.imported := by
  simp [State.keys]

/-- A node of a program has a node of equal structure among those that were imported from the other
program. -/
def HasTwin (left right : Program) (state : State) (handle : Handle) : Prop :=
  ∃ twin ∈ state.keys, left.table.Alike right.table twin handle

section Twins

variable (equal : Equal left right) (ran : (importProgram left).run {} = .ok () state)

include equal ran

/-- What is demanded by a node with a twin has a twin, and no fault. -/
theorem sustains_hasTwin : Sustains right (HasTwin left right state) := by
  obtain ⟨all, finished, -⟩ := importProgram_run ran
  rintro y ⟨x, isKey, alike⟩
  obtain ⟨new, pair⟩ := State.mem_keys_iff.mp isKey
  obtain ⟨node, present, -⟩ := finished.faithful.translates x new pair
  obtain ⟨other, atY, parallel⟩ := alike.exists_parallel present
  have unfaulty := checked_importProgram equal.wellFormed ran x new pair node present
  refine ⟨other, atY, equal.unfaulty parallel unfaulty, fun otherChild isDemanded => ?_⟩
  have agree (child other : Handle) (alikeChild : left.table.Alike right.table child other) :=
    alikeChild.constant?_eq equal.wellFormed.table equal.otherWellFormed.table
  obtain ⟨child, isDemanded, alikeChild⟩ :=
    Results.exists_left_of_mem (parallel.demands agree) isDemanded
  have imported := (finished.faithful.carried equal.wellFormed.table pair present).2 child isDemanded
  exact ⟨child, State.mem_keys_iff.mpr imported, alikeChild⟩

/-- The labels that one program keeps are all that the other program needs. -/
theorem viable_of_equal :
    Viable right (· ∈ state.program.names) (HasTwin left right state) := by
  obtain ⟨all, finished, -⟩ := importProgram_run ran
  refine ⟨sustains_hasTwin equal ran, fun label isExternal => ?_, fun name isLive => ?_, ?_⟩
  · obtain ⟨member, external⟩ := List.mem_filter.mp isExternal
    obtain ⟨original, found, same⟩ :=
      equal.symm.exists_label (Program.find?_of_mem equal.otherWellFormed.names member)
    rw [← Program.name_of_find? found]
    refine mem_names_of_external ran (List.mem_filter.mpr ⟨Program.mem_of_find? found, ?_⟩)
    rw [← same.external]
    exact external
  · obtain ⟨label, original, -, found, -, pair, -⟩ := finished.find? isLive
    obtain ⟨other, foundOther, same⟩ := equal.exists_label found
    exact ⟨other, foundOther, original.body, State.mem_keys_iff.mpr ⟨_, pair⟩, same.body⟩
  · intro name other new mentioned current isLive foundOther faithful pair mentions
    obtain ⟨label, original, -, found, -, originalPair, closed⟩ := finished.find? isLive
    obtain ⟨_, foundAgain, same⟩ := equal.exists_label found
    rw [foundOther] at foundAgain
    cases foundAgain
    have alike := finished.faithful.alike faithful equal.wellFormed.table equal.otherWellFormed.table
      same.body originalPair pair
    exact closed mentioned ((alike.symm finished.wellFormed.table).mentions faithful.wellFormed
      finished.wellFormed.table mentions)

/-- Whatever can be imported from one program can be imported from the other. -/
theorem exists_importProgram_of_equal :
    ∃ later, (importProgram right).run {} = .ok () later ∧
      Accounted right (HasTwin left right state) later ∧ later.program.names ⊆ state.program.names :=
  (viable_of_equal equal ran).exists_importProgram equal.otherWellFormed

variable (ranOther : (importProgram right).run {} = .ok () later)

include ranOther

theorem accounted_of_equal :
    Accounted right (HasTwin left right state) later ∧ later.program.names ⊆ state.program.names := by
  obtain ⟨_, ranAgain, result⟩ := exists_importProgram_of_equal equal ran
  rw [ranOther] at ranAgain
  cases ranAgain
  exact result

/-- The nodes that were imported from the two programs are of equal structure, one by one. -/
theorem exists_matching_keys : ∃ matching, List.Perm matching later.keys ∧
    List.Forall₂ (left.table.Alike right.table) state.keys matching := by
  have toRight := (accounted_of_equal equal ran ranOther).1
  have toLeft := (accounted_of_equal equal.symm ranOther ran).1
  refine Results.exists_perm_of_oneToOne toLeft.distinct toRight.distinct (fun x isKey => ?_)
    toRight.inside (fun _ _ _ _ _ alike alikeToo => alike.left_unique equal.wellFormed.table alikeToo)
    fun _ _ _ _ _ alike alikeToo =>
      alike.right_unique equal.wellFormed.table equal.otherWellFormed.table alikeToo
  obtain ⟨y, isTwin, alike⟩ := toLeft.inside x isKey
  exact ⟨y, isTwin, alike.symm equal.otherWellFormed.table⟩

theorem names_perm_of_equal : state.program.names.Perm later.program.names := by
  obtain ⟨_, finished, -⟩ := importProgram_run ran
  obtain ⟨_, finishedOther, -⟩ := importProgram_run ranOther
  refine (List.perm_ext_iff_of_nodup finished.wellFormed.names finishedOther.wellFormed.names).mpr ?_
  exact fun name => ⟨fun isName => (accounted_of_equal equal.symm ranOther ran).2 isName,
    fun isName => (accounted_of_equal equal ran ranOther).2 isName⟩

theorem length_labels_of_equal : state.program.labels.length = later.program.labels.length := by
  simpa [Program.names] using (names_perm_of_equal equal ran ranOther).length_eq

theorem kept_eq_of_equal : state.kept = later.kept := by
  obtain ⟨_, finished, -⟩ := importProgram_run ran
  obtain ⟨_, finishedOther, -⟩ := importProgram_run ranOther
  rw [finished.kept_eq, finishedOther.kept_eq, length_labels_of_equal equal ran ranOther]

/-- The same was counted. -/
theorem tally_eq_of_equal : state.tally = later.tally := by
  have own := (accounted_of_equal (.refl equal.wellFormed) ran ran).1.surplus
  have others := (accounted_of_equal equal ran ranOther).1.surplus
  obtain ⟨matching, isPerm, related⟩ := exists_matching_keys equal ran ranOther
  have expenses : (state.keys.map left.table.expense).sum =
      (later.keys.map right.table.expense).sum := by
    rw [← (isPerm.map _).sum_eq]
    congr 1
    rw [← List.forall₂_eq_eq_eq, List.forall₂_map_left_iff, List.forall₂_map_right_iff]
    exact related.imp fun _ _ alike =>
      alike.expense_eq equal.wellFormed.table equal.otherWellFormed.table
  rw [length_labels_of_equal equal ran ranOther, ← others, State.surplus, State.surplus, expenses]
    at own
  exact sub_left_injective own

/-- What was imported from two equal programs is equal. -/
theorem same_of_equal : state.program.same later.program = true := by
  obtain ⟨_, finished, -⟩ := importProgram_run ran
  obtain ⟨_, finishedOther, -⟩ := importProgram_run ranOther
  apply Program.same_of_alike (length_labels_of_equal equal ran ranOther)
  intro label member
  obtain ⟨original, found, signature, external, pair⟩ := finished.labels label member
  obtain ⟨other, foundOther⟩ := Program.mem_names_iff.mp
    ((names_perm_of_equal equal ran ranOther).mem_iff.mp (List.mem_map_of_mem member))
  obtain ⟨_, foundOriginal, otherSignature, otherExternal, otherPair⟩ :=
    finishedOther.labels other (Program.mem_of_find? foundOther)
  rw [Program.name_of_find? foundOther] at foundOriginal
  obtain ⟨_, foundAgain, same⟩ := equal.exists_label found
  rw [foundOriginal] at foundAgain
  cases foundAgain
  refine ⟨other, foundOther, ?_, ?_, finished.faithful.alike finishedOther.faithful
    equal.wellFormed.table equal.otherWellFormed.table same.body pair otherPair⟩
  · rw [signature, otherSignature, same.signature]
  · rw [external, otherExternal, same.external]

end Twins

end Simplify

open Build in
/-- The reducible program with its labels in another order, and with a node of no use. -/
def Samples.reordered : Program :=
  let steps : BuildM Unit := do
    let _ ← int 99
    let _ ← define "ret" [.int] (← call (← reference "ret") [← parameter "ret" 0]) true
    let k ← parameter "f" 1
    let one ← int 1
    let remainder ← primitive .mod [← int 7, one]
    let _ ← define "h" [] (← call k [remainder])
    let sum ← primitive .add [remainder, one]
    let _ ← define "g" [] (← call k [← primitive .mul [← parameter "f" 0, sum]])
    let yes ← cast one .bool
    let _ ← define "f" [.int, .fn [.int]] (← branch yes (← reference "g") (← reference "h")) true
  (Build.run steps).toOption.getD {}

namespace Program

variable {left right : Program}

/-- Equal programs are simplified to equal programs, with the same statistics. -/
theorem Equal.exists_simplifyStats (equal : Equal left right) {simplified : Program}
    {stats : SimplifyStats} (success : left.simplifyStats = .ok (simplified, stats)) :
    ∃ other, right.simplifyStats = .ok (other, stats) ∧ simplified.same other = true := by
  obtain ⟨state, ran, rfl, rfl⟩ := simplifyStats_eq_ok success
  obtain ⟨later, ranOther, -⟩ := Simplify.exists_importProgram_of_equal equal ran
  refine ⟨later.program, ?_, Simplify.same_of_equal equal ran ranOther⟩
  have counted := Simplify.tally_eq_of_equal equal ran ranOther
  obtain ⟨matching, isPerm, related⟩ := Simplify.exists_matching_keys equal ran ranOther
  have imported : state.imported.length = later.imported.length := by
    simpa [Simplify.State.keys] using related.length_eq.trans isPerm.length_eq
  obtain ⟨visits, folded, collapsed⟩ : state.memoHits = later.memoHits ∧
      state.folded = later.folded ∧ state.collapsed = later.collapsed := by
    simpa [Simplify.State.tally, imported] using counted
  rw [simplifyStats_of_run ranOther, visits, folded, collapsed, equal.length_labels,
    Simplify.kept_eq_of_equal equal ran ranOther, Simplify.length_labels_of_equal equal ran ranOther]

/-- No pass and no analysis tells two programs apart, up to the order of labels and handles. -/
structure TreatedAlike (left right : Program) : Prop where
  validate : left.validate = .ok () ↔ right.validate = .ok ()
  typeCheck : left.typeCheck = .ok () ↔ right.typeCheck = .ok ()
  run : ∀ (entry : Name) (arguments : List Value) (halts : List Name) (limit : Option UInt64),
    left.run entry arguments halts limit = right.run entry arguments halts limit
  scope : ∀ entry, Results.Agree (fun scope other =>
    ∀ name, name ∈ scope.continuations ↔ name ∈ other.continuations) (left.scope entry)
      (right.scope entry)
  callGraph : Results.Agree (fun graph other =>
    graph.nodes.Perm other.nodes ∧ graph.edges.Perm other.edges) left.callGraph right.callGraph
  simplify : Results.Agree (fun result other => result.1.same other.1 = true ∧ result.2 = other.2)
    left.simplifyStats right.simplifyStats

/-- Passes and analyses depend on the structure of a program only. Programs that are found to have
the same structure are valid and well typed alike and run alike; their labels have the same scopes and
their call graphs the same nodes and edges; and they are simplified to programs of the same structure,
with the same statistics. -/
theorem treatedAlike_of_same (left right : Program) (wellFormed : left.WellFormed)
    (otherWellFormed : right.WellFormed) (same : left.same right = true) : TreatedAlike left right := by
  have equal := equal_of_same wellFormed otherWellFormed same
  refine ⟨?_, ?_, equal.run_eq, fun entry => ?_, ?_, ?_⟩
  · rw [validate_eq_ok_iff wellFormed, validate_eq_ok_iff otherWellFormed]
    exact ⟨equal.resolved, equal.symm.resolved⟩
  · rw [typeCheck_eq_ok_iff wellFormed, typeCheck_eq_ok_iff otherWellFormed]
    exact ⟨equal.typed, equal.symm.typed⟩
  · refine Results.agree_of_ok (fun scope => equal.exists_same_scope) fun other success => ?_
    obtain ⟨scope, found, -⟩ := equal.symm.exists_same_scope success
    exact ⟨scope, found⟩
  · refine Results.agree_of_ok (fun graph => equal.exists_same_callGraph) fun other success => ?_
    obtain ⟨graph, found, -⟩ := equal.symm.exists_same_callGraph success
    exact ⟨graph, found⟩
  · refine Results.agree_of_ok (fun result success => ?_) fun other success => ?_
    · obtain ⟨other, found, sameResult⟩ := equal.exists_simplifyStats success
      exact ⟨_, found, sameResult, rfl⟩
    · obtain ⟨result, found, -⟩ := equal.symm.exists_simplifyStats success
      exact ⟨_, found⟩

/-- The reducible program is treated alike in whatever order its labels are defined, although it is
imported in another order then. -/
theorem treatedAlike_of_same_reordered :
    let left := Samples.reducible
    let right := Samples.reordered
    left.WellFormed ∧ right.WellFormed ∧ left.same right = true ∧
      left.externals.map (·.name) = ["f", "ret"] ∧ right.externals.map (·.name) = ["ret", "f"] ∧
      left.typeCheck = .ok () ∧ left.table ≠ right.table ∧ TreatedAlike left right := by
  intro left right
  obtain ⟨wellFormed, otherWellFormed, same, externals, otherExternals, typed, tables⟩ :
      left.WellFormed ∧ right.WellFormed ∧ left.same right = true ∧
      left.externals.map (·.name) = ["f", "ret"] ∧ right.externals.map (·.name) = ["ret", "f"] ∧
      left.typeCheck = .ok () ∧ left.table ≠ right.table := by decide +kernel
  exact ⟨wellFormed, otherWellFormed, same, externals, otherExternals, typed, tables,
    treatedAlike_of_same left right wellFormed otherWellFormed same⟩

end Program

end CpsGraph
