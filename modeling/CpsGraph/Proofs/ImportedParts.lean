import CpsGraph.Proofs.ImportFaults
import CpsGraph.Proofs.SimplifiedRuns

/-! # The parts of what was imported

Whatever is left of a body when it is imported is without faults and in normal form: nothing can be
folded, reduced, converted or decided any more. So a simplified program is faultless, also if the
program that it came from had faults in labels that were dropped; and a faultless program can be
simplified.
-/

namespace CpsGraph

namespace Simplify

/-- Nothing is left to simplify at a node, apart from its parts. -/
def Normal (table : Table) : Node → Prop
  | .primitive op operands => Unfoldable table op operands ∧ Irreducible table op operands
  | .cast source ty => ∀ literal, table.known? source = some literal →
      ∀ result, literal.cast ty ≠ .ok result
  | .branch arguments => ∀ condition onTrue onFalse, arguments = [condition, onTrue, onFalse] →
      (table.known? condition).bind Literal.bool? = none
  | _ => True

/-- A node of the new table has no fault in the old program and is in normal form. -/
def Settled (old : Program) (table : Table) (node : Node) : Prop :=
  old.Unfaulty node ∧ Normal table node

section Parts

variable {old : Program} {table : Table} {imported : Pairs} {handle new : Handle}

/-- Every part of an imported node is without a fault and in normal form. -/
theorem throughout_settled (wellFormed : old.table.WellFormed)
    (faithful : Faithful old table imported) (checked : Checked old imported)
    (pair : (handle, new) ∈ imported) :
    table.Throughout (Settled old table) new := by
  induction handle using Nat.strongRecOn generalizing new with
  | ind handle ih =>
    obtain ⟨node, present, translates⟩ := faithful.translates handle new pair
    have unfaulty := checked handle new pair node present
    -- The image of a child is settled by induction; so only the new node itself is left to look at.
    have image {child newChild : Handle} (isChild : child ∈ node.children)
        (atChild : (child, newChild) ∈ imported) :=
      ih child (wellFormed.child_lt present isChild) atChild
    have images {olds news : List Handle} (maps : MapsAll imported olds news)
        (inside : ∀ child ∈ olds, child ∈ node.children) :
        ∀ newChild ∈ news, table.Throughout (Settled old table) newChild := by
      intro newChild member
      obtain ⟨child, isChild, atChild⟩ := Results.exists_left_of_mem maps member
      exact image (inside child isChild) atChild
    have built {newNode : Node} (atNew : table.get? new = some newNode)
        (unfaulty : old.Unfaulty newNode) (normal : Normal table newNode)
        (children : ∀ child ∈ newNode.children, table.Throughout (Settled old table) child) :=
      (Table.throughout_iff faithful.wellFormed atNew).mpr ⟨⟨unfaulty, normal⟩, children⟩
    have leaf {newNode : Node} (atNew : table.get? new = some newNode)
        (unfaulty : old.Unfaulty newNode) (normal : Normal table newNode)
        (childless : newNode.children = []) : table.Throughout (Settled old table) new :=
      built atNew unfaulty normal (by simp [childless])
    cases translates with
    | call atCallee atArguments atNew =>
      refine built atNew (by simp) trivial ?_
      exact images (.cons atCallee atArguments) fun _ => id
    | collapsed atCondition decided atTarget atNew =>
      rename_i taken
      refine built atNew (by simp) trivial ?_
      exact images (.cons atTarget .nil) (by cases taken <;> simp [Node.children])
    | branch atCondition undecided atTrue atFalse atNew =>
      refine built atNew (by simp [branchArity]) ?_ ?_
      · rintro _ _ _ ⟨⟩
        exact undecided
      · exact images (.cons atCondition (.cons atTrue (.cons atFalse .nil))) fun _ => id
    | folded _ _ _ atNew => exact leaf atNew (by simp) trivial rfl
    | reduced atLeft atRight unfoldable identity leaves =>
      rename_i reduction
      cases reduction with
      | left => exact leaves ▸ image (by simp [Node.children]) atLeft
      | right => exact leaves ▸ image (by simp [Node.children]) atRight
      | constant literal => exact leaf leaves (by simp) trivial rfl
    | primitive atOperands unfoldable irreducible atNew =>
      exact built atNew (by simp) ⟨unfoldable, irreducible⟩ (images atOperands fun _ => id)
    | converted _ _ _ atNew => exact leaf atNew (by simp) trivial rfl
    | cast atSource unknown atNew =>
      exact built atNew (by simp) unknown (images (.cons atSource .nil) fun _ => id)
    | abstraction atNew => exact leaf atNew unfaulty trivial rfl
    | parameter atNew => exact leaf atNew unfaulty trivial rfl
    | quote atNew => exact leaf atNew (by simp) trivial rfl

/-- Every name in an imported node is a label of the old program. -/
theorem mem_names_of_mentions (wellFormed : old.table.WellFormed)
    (faithful : Faithful old table imported) (checked : Checked old imported)
    (pair : (handle, new) ∈ imported) {name : Name} (mentions : table.Mentions new name) :
    name ∈ old.names := by
  refine Program.mem_names_of_mentions (fun part inside => ?_) mentions
  obtain ⟨node, present, unfaulty, -⟩ :=
    throughout_settled wellFormed faithful checked pair part inside
  exact ⟨node, present, unfaulty⟩

end Parts

section Programs

variable {old : Program} {state later : State} {all : List Name}

/-- Importing a program leaves the imports checked, or it fails: because of a node that is at fault,
or because the table is no table of a program. -/
theorem ends_importProgram_of_bodies
    (bodies : ∀ label ∈ old.labels, ∃ node, old.table.get? label.body = some node ∧
      node.isBody = true) :
    Ends old (fun fault => fault.isNodeFault = true ∨
      ∃ handle, fault = .unknownHandle handle ∧ ¬ old.table.WellFormed)
      ((importProgram old).run {}) := by
  apply ends_importProgram (fun _ => True) bodies
  · intro label member
    obtain ⟨node, present, -⟩ := bodies label member
    exact runs_importHandle (Table.lt_size_of_get? present)
  · exact fun name _ _ => .inl rfl
  · exact fun _ _ _ _ _ _ _ _ => trivial
  · exact fun _ _ => trivial

variable (wellFormed : old.WellFormed)

include wellFormed

/-- Importing a program checks all that it imports. -/
theorem checked_importProgram (ran : (importProgram old).run {} = .ok () later) :
    Checked old later.imported := by
  have ends := ends_importProgram_of_bodies fun label member =>
    (wellFormed.labels label member).body
  rw [ran] at ends
  exact ends

/-- A faultless program can be imported. -/
theorem exists_importProgram (faultless : old.Faultless) :
    ∃ later, (importProgram old).run {} = .ok () later := by
  have ends : Ends old (fun _ => False) ((importProgram old).run {}) := by
    apply ends_importProgram (· ∈ old.names)
    · exact fun label member => (wellFormed.labels label member).body
    · exact fun label member =>
        runs_importHandle_of_throughout wellFormed.table (faultless label member)
    · exact fun name known unknown => unknown known
    · exact fun _ _ _ _ faithful checked pair => mem_names_of_mentions wellFormed.table faithful
        checked pair
    · exact fun label isExternal => List.mem_map_of_mem (List.mem_filter.mp isExternal).1
  cases ran : (importProgram old).run {} with
  | ok result later => exact ⟨later, rfl⟩
  | error fault later =>
    rw [ran] at ends
    exact ends.elim

/-- A node of a simplified program without a fault in the old one has none, if its names are
labels. -/
theorem unfaulty_of_old (finished : Importing old [] all state) {node : Node}
    (unfaulty : old.Unfaulty node)
    (abstraction : ∀ name, node = .abstraction name → name ∈ state.program.names)
    (parameter : ∀ name index, node = .parameter name index → name ∈ state.program.names) :
    state.program.Unfaulty node := by
  cases node with
  | abstraction name => exact Program.unfaulty_abstraction.mpr (abstraction name rfl)
  | parameter name index =>
    obtain ⟨handle, known⟩ := Program.unfaulty_parameter.mp unfaulty
    apply Program.unfaulty_parameter.mpr
    exact exists_parameter_of_old wellFormed finished (parameter name index rfl) known
  | branch arguments => simpa using unfaulty
  | continuation => simp at unfaulty
  | _ => simp

/-- A simplified program is faultless. -/
theorem Importing.faultless (finished : Importing old [] all state)
    (checked : Checked old state.imported) : state.program.Faultless := by
  intro label member part inside
  obtain ⟨original, -, -, -, pair⟩ := finished.labels label member
  obtain ⟨node, present, unfaulty, -⟩ := throughout_settled wellFormed.table finished.faithful
    checked pair part inside
  refine ⟨node, present, unfaulty_of_old wellFormed finished unfaulty ?_ ?_⟩
  · rintro name rfl
    exact finished.mem_names member ⟨part, inside, .inl present⟩
  · rintro name index rfl
    exact finished.mem_names member ⟨part, inside, .inr ⟨index, present⟩⟩

end Programs

end Simplify

end CpsGraph
