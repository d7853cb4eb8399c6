import CpsGraph.Proofs.FreshNames
import CpsGraph.Specialize

/-! # Clones

The names chosen for several clones are new and differ from each other. The closure and the parameters
of the source of a clone stand for those of the clone.
-/

namespace CpsGraph.Program

variable {program : Program} {reserved names : List Name}

/-- The clones of some labels have new names that differ from each other. -/
structure Clones (program : Program) (reserved names : List Name) (clones : List Clone) : Prop where
  sources : clones.map (·.source.name) = names
  found : ∀ clone ∈ clones, program.find? clone.source.name = some clone.source
  distinct : (clones.map (·.fresh)).Nodup
  unknown : ∀ clone ∈ clones, clone.fresh ∉ program.names
  unreserved : ∀ clone ∈ clones, clone.fresh ∉ reserved

/-- Clones can be planned for all labels. -/
theorem exists_planClones (program : Program) (reserved : List Name)
    (known : ∀ name ∈ names, name ∈ program.names) :
    ∃ clones, program.planClones reserved names = .ok clones ∧
      program.Clones reserved names clones := by
  induction names generalizing reserved with
  | nil => exact ⟨[], rfl, rfl, nofun, List.nodup_nil, nofun, nofun⟩
  | cons name names ih =>
    obtain ⟨source, found⟩ := mem_names_iff.mp (known name List.mem_cons_self)
    obtain ⟨unknown, unreserved⟩ := freshName_unused program name reserved
    obtain ⟨clones, planned, rest⟩ := ih (program.freshName name reserved :: reserved)
      fun other member => known other (List.mem_cons_of_mem _ member)
    refine ⟨⟨source, program.freshName name reserved⟩ :: clones, ?_, ?_, ?_, ?_, ?_, ?_⟩
    · exact Results.bind_eq_ok_iff.mpr ⟨source, resolve_eq_ok_iff.mpr found,
        Results.bind_eq_ok_iff.mpr ⟨clones, planned, rfl⟩⟩
    · rw [List.map_cons, rest.sources, name_of_find? found]
    · refine List.forall_mem_cons.mpr ⟨?_, rest.found⟩
      rw [name_of_find? found]
      exact found
    · refine List.nodup_cons.mpr ⟨fun member => ?_, rest.distinct⟩
      obtain ⟨clone, inside, same⟩ := List.mem_map.mp member
      exact rest.unreserved clone inside (same ▸ List.mem_cons_self)
    · exact List.forall_mem_cons.mpr ⟨unknown, rest.unknown⟩
    · exact List.forall_mem_cons.mpr ⟨unreserved, fun clone inside before =>
        rest.unreserved clone inside (List.mem_cons_of_mem _ before)⟩

end CpsGraph.Program

namespace CpsGraph.Clone

/-- A handle of the source of a clone stands for a node of the clone. -/
inductive Renames (clone : Clone) : Handle → Node → Prop
  | closure : Renames clone clone.source.abstraction (.abstraction clone.fresh)
  | parameter {index : Nat} {handle : Handle}
      (atIndex : clone.source.parameters[index]? = some handle) :
      Renames clone handle (.parameter clone.fresh index)

theorem renames_nodes (clone : Clone) : List.Forall₂ clone.Renames clone.renamed clone.nodes := by
  refine .cons .closure (Results.forall₂_of_getElem? (by simp) ?_)
  intro index handle node atIndex isNode
  have inRange := (List.getElem?_eq_some_iff.mp atIndex).1
  rw [List.getElem?_map, List.getElem?_range inRange] at isNode
  cases isNode
  exact .parameter atIndex

theorem children_of_mem_nodes {clone : Clone} {node : Node} (member : node ∈ clone.nodes) :
    node.children = [] := by
  obtain ⟨handle, -, renames⟩ := Results.exists_left_of_mem clone.renames_nodes member
  cases renames <;> rfl

theorem renames_allNodes (clones : List Clone) :
    List.Forall₂ (fun handle node => ∃ clone ∈ clones, clone.Renames handle node)
      (clones.flatMap renamed) (clones.flatMap nodes) := by
  induction clones with
  | nil => exact .nil
  | cons clone clones ih =>
    rw [List.flatMap_cons, List.flatMap_cons]
    refine List.rel_append (clone.renames_nodes.imp fun _ _ renames => ?_) (ih.imp fun _ _ rest => ?_)
    · exact ⟨clone, List.mem_cons_self, renames⟩
    · obtain ⟨other, member, renames⟩ := rest
      exact ⟨other, List.mem_cons_of_mem _ member, renames⟩

/-- The renamed handles stand for the nodes of the clones once these are interned. -/
theorem renames_internAll (table : Table) (clones : List Clone) :
    List.Forall₂ (fun handle image => ∃ clone ∈ clones, ∃ node, clone.Renames handle node ∧
      (table.internAll (clones.flatMap nodes)).2.get? image = some node)
      (clones.flatMap renamed) (table.internAll (clones.flatMap nodes)).1 := by
  refine Results.forall₂_of_common (renames_allNodes clones).flip (table.get?_internAll _).flip ?_
  intro node handle image _ _ ⟨clone, member, renames⟩ present
  exact ⟨clone, member, node, renames, present⟩

end CpsGraph.Clone
