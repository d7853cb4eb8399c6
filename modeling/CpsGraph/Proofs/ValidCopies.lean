import CpsGraph.Proofs.CopiedCode

/-! # Specialized programs are valid

Copies of expressions are expressions again: their names are labels of the specialized program, and
their parameters are in range. So a specialized program is valid, and it calls the specialized label
with as many arguments as the program did.
-/

namespace CpsGraph.Program

variable {program host specialized : Program} {entry : Label} {newName : Name}
  {plan : List Argument} {clones : List Clone} {continuations : List Name} {arity : Nat}
  {signature : Signature} {Image : Handle → Handle → Prop} {handle image : Handle} {name : Name}

/-- Expressions stay expressions when labels are added. -/
theorem Expression.grow (expression : program.Expression handle)
    (growth : host.table.Extends program.table)
    (kept : ∀ name label, program.find? name = some label → host.find? name = some label) :
    host.Expression handle := by
  induction expression with
  | primitive present _ ih => exact .primitive (growth present) ih
  | cast present _ ih => exact .cast (growth present) ih
  | abstraction present known =>
    obtain ⟨label, found⟩ := mem_names_iff.mp known
    exact .abstraction (growth present) (mem_names_iff.mpr ⟨label, kept _ label found⟩)
  | parameter present known =>
    obtain ⟨found, known⟩ := known
    obtain ⟨label, foundLabel, atIndex⟩ := parameter_eq_ok_iff.mp known
    exact .parameter (growth present)
      ⟨found, parameter_eq_ok_iff.mpr ⟨label, kept _ label foundLabel, atIndex⟩⟩
  | quote present => exact .quote (growth present)

/-- A copy of an expression without parts is an expression. -/
theorem Copies.expression (wellFormed : program.WellFormed)
    (planned : program.Clones [newName] continuations clones)
    (hosts : program.Hosts host newName arity clones)
    (inRange : ∀ index target : Nat, plan[index]? = some (.passed target) → target < arity)
    {node imageNode : Node} (copies : Copies entry.name newName plan clones node imageNode)
    (expression : program.Expression handle) (present : program.table.get? handle = some node)
    (imagePresent : host.table.get? image = some imageNode) : host.Expression image := by
  have copied {name other : Name} {index : Nat}
      (copiesName : program.CopiesName entry.name clones name other)
      (isParameter : program.table.get? handle = some (.parameter name index))
      (isImage : host.table.get? image = some (.parameter other index)) : host.Expression image := by
    have atIndex := expression.mem_parameters wellFormed isParameter
    exact .parameter isImage (copiesName.exists_parameter wellFormed planned hosts
      ⟨handle, parameter_eq_ok_iff.mpr atIndex⟩)
  cases copies with
  | @argument index argument atIndex =>
    cases argument with
    | fixed literal => exact .quote imagePresent
    | passed target =>
      obtain ⟨label, found, sameArity⟩ := hosts.new
      exact .parameter imagePresent (hosts.wellFormed.exists_parameter_iff.mpr
        ⟨label, found, sameArity ▸ inRange index target atIndex⟩)
  | closure member =>
    obtain ⟨label, found, -⟩ := hosts.clones _ member
    exact .abstraction imagePresent (mem_names_iff.mpr ⟨label, found⟩)
  | parameter member => exact copied (.clone member) present imagePresent
  | outerClosure =>
    obtain ⟨label, found⟩ := mem_names_iff.mp (expression.mem_names present)
    obtain ⟨other, foundOther, -⟩ := hosts.old _ label found
    exact .abstraction imagePresent (mem_names_iff.mpr ⟨other, foundOther⟩)
  | outerParameter outside other =>
    obtain ⟨label, found, -⟩ := expression.mem_parameters wellFormed present
    exact copied (.outer (mem_names_iff.mpr ⟨label, found⟩) other outside) present imagePresent
  | quote => exact .quote imagePresent

/-- Copying keeps the closure of the specialized label, and nothing else becomes that closure. -/
theorem Copies.abstraction_iff (encloses : program.Encloses entry continuations)
    (planned : program.Clones [newName] continuations clones) (known : entry.name ∈ program.names)
    {node imageNode : Node} (copies : Copies entry.name newName plan clones node imageNode) :
    node = .abstraction entry.name ↔ imageNode = .abstraction entry.name := by
  cases copies with
  | @argument _ argument =>
    cases argument with
    | fixed | passed => exact ⟨nofun, nofun⟩
  | @closure clone member =>
    have copiesName : program.CopiesName entry.name clones clone.source.name clone.fresh :=
      .clone member
    refine ⟨fun same => absurd (Node.abstraction.inj same) (copiesName.ne_entry encloses planned),
      fun same => absurd ?_ (planned.unknown clone member)⟩
    rwa [Node.abstraction.inj same]
  | outerClosure => exact Iff.rfl
  | parameter | outerParameter | quote => exact ⟨nofun, nofun⟩

section Specialized

variable (wellFormed : program.WellFormed)
  (planned : program.Clones [newName] continuations clones)
  (built : program.Specialized specialized (definitions entry newName signature clones)
    (Copies entry.name newName plan clones) Image)
  (inRange : ∀ index target : Nat, plan[index]? = some (.passed target) → target < signature.arity)

include wellFormed planned built inRange

/-- The image of an expression is an expression. -/
theorem Specialized.expression_image (related : Image handle image) :
    specialized.Expression image := by
  induction handle using Nat.strongRecOn generalizing image with
  | ind handle ih =>
    have expression := built.expression handle image related
    obtain ⟨node, imageNode, present, imagePresent, copies | parts⟩ :=
      built.image handle image related
    · exact copies.expression wellFormed planned built.hosts inRange expression present imagePresent
    · have child {part partImage : Handle} (member : part ∈ node.children)
          (related : Image part partImage) : specialized.Expression partImage :=
        ih part (wellFormed.table.child_lt present member) related
      cases parts with
      | call | branch => cases expression.isExpression present
      | primitive atOperands =>
        refine .primitive imagePresent fun operand member => ?_
        obtain ⟨original, inside, related⟩ := Results.exists_left_of_mem atOperands member
        exact child inside related
      | cast atSource => exact .cast imagePresent (child (List.mem_singleton_self _) atSource)

/-- A specialized program is valid. -/
theorem Specialized.valid (found : program.find? name = some entry) (valid : program.Valid) :
    specialized.Valid := by
  obtain ⟨copies, labels, defines⟩ := built.labels
  intro label member
  rw [labels, List.mem_append] at member
  rcases member with isOld | isCopy
  · obtain ⟨node, present, validBody⟩ := valid label isOld
    have parts : node.Matches (fun child image => program.Expression child ∧ image = child) node :=
      validBody.matches_self fun _ expression => ⟨expression, rfl⟩
    refine ⟨node, built.growth present, validBody.of_matches parts ?_⟩
    rintro _ child ⟨expression, rfl⟩
    exact expression.grow built.growth fun _ _ => built.find?_old
  · obtain ⟨definition, isPlanned, define⟩ := Results.exists_left_of_mem defines isCopy
    obtain ⟨node, imageNode, present, imagePresent, parts⟩ := define.body
    obtain ⟨source, isLabel, sameBody⟩ := exists_label_of_mem_definitions found planned isPlanned
    obtain ⟨body, bodyPresent, validBody⟩ := valid source isLabel
    rw [sameBody, bodyPresent] at present
    cases present
    exact ⟨imageNode, imagePresent, validBody.of_matches parts fun _ _ =>
      built.expression_image wellFormed planned inRange⟩

omit inRange

section Calls

variable (encloses : program.Encloses entry continuations)
  (found : program.find? entry.name = some entry)

include encloses found

theorem Specialized.abstraction_iff (related : Image handle image) :
    handle = entry.abstraction ↔ image = entry.abstraction := by
  obtain ⟨node, imageNode, present, imagePresent, copied⟩ := built.image handle image related
  rw [(wellFormed.registered found).eq_abstraction_iff wellFormed.table,
    (built.wellFormed.registered (built.find?_old found)).eq_abstraction_iff built.wellFormed.table,
    present, imagePresent, Option.some_inj, Option.some_inj]
  rcases copied with copies | parts
  · exact copies.abstraction_iff encloses planned (mem_names_iff.mpr ⟨entry, found⟩)
  · cases parts <;> exact ⟨nofun, nofun⟩

/-- A specialized program calls the label with as many arguments as the program did. -/
theorem Specialized.length_arguments {count : Nat}
    (counts : ∀ label ∈ program.labels, ∀ arguments,
      program.table.get? label.body = some (.call entry.abstraction arguments) →
        arguments.length = count) :
    ∀ label ∈ specialized.labels, ∀ arguments,
      specialized.table.get? label.body = some (.call entry.abstraction arguments) →
        arguments.length = count := by
  obtain ⟨copies, labels, defines⟩ := built.labels
  intro label member arguments present
  rw [labels, List.mem_append] at member
  rcases member with isOld | isCopy
  · obtain ⟨node, presentOld, -⟩ := (wellFormed.labels label isOld).body
    rw [built.growth presentOld] at present
    cases present
    exact counts label isOld arguments presentOld
  · obtain ⟨definition, isPlanned, define⟩ := Results.exists_left_of_mem defines isCopy
    obtain ⟨node, imageNode, presentOld, imagePresent, parts⟩ := define.body
    obtain ⟨source, isLabel, sameBody⟩ := exists_label_of_mem_definitions found planned isPlanned
    rw [present] at imagePresent
    cases imagePresent
    cases parts with
    | call atCallee atArguments =>
      rw [sameBody, (built.abstraction_iff wellFormed planned encloses found atCallee).mpr rfl]
        at presentOld
      rw [← atArguments.length_eq]
      exact counts source isLabel _ presentOld

end Calls

end Specialized

end CpsGraph.Program
