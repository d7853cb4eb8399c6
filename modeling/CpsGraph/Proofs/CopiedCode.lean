import CpsGraph.Proofs.Correspondence
import CpsGraph.Proofs.SpecializedPrograms

/-! # Running copied code

A copied body runs in an environment in which the places of the original are renamed: a parameter of
a scope is that of its clone, and a parameter of the specialized label is an argument of the new
label, or it holds its fixed literal. In environments that are linked in this way, copied code has
the values of the original. The renaming is one to one, so entering a label and its clone keeps
environments linked.
-/

namespace CpsGraph.Program

/-- Labels that correspond when a label is specialized: a label of the scope and its clone, or a
label outside of the scope and itself. -/
inductive CopiesName (program : Program) (entry : Name) (clones : List Clone) : Name → Name → Prop
  | clone {clone : Clone} (member : clone ∈ clones) :
      CopiesName program entry clones clone.source.name clone.fresh
  | outer {name : Name} (known : name ∈ program.names) (other : name ≠ entry)
      (outside : name ∉ clones.map (·.source.name)) : CopiesName program entry clones name name

/-- Places that correspond when a label is specialized. -/
inductive CopiesPlace (program : Program) (entry newName : Name) (plan : List Argument)
    (clones : List Clone) : Place → Place → Prop
  | argument {index target : Nat} (atIndex : plan[index]? = some (.passed target)) :
      CopiesPlace program entry newName plan clones (entry, index) (newName, target)
  | label {name image : Name} (copies : CopiesName program entry clones name image) (index : Nat) :
      CopiesPlace program entry newName plan clones (name, index) (image, index)

/-- A program that has the labels of another one and those of a specialization, with the same
numbers of parameters. -/
structure Hosts (program host : Program) (newName : Name) (arity : Nat) (clones : List Clone) :
    Prop where
  wellFormed : host.WellFormed
  old : ∀ name label, program.find? name = some label →
    ∃ image, host.find? name = some image ∧ image.arity = label.arity
  new : ∃ label, host.find? newName = some label ∧ label.arity = arity
  clones : ∀ clone ∈ clones, ∃ image, host.find? clone.fresh = some image ∧
    image.arity = clone.source.arity

/-- The linkage of copied code: the labels of the scope go with their clones, and the parameters of
the entry are bound. -/
def copyLinkage (program : Program) (entry newName : Name) (plan : List Argument)
    (clones : List Clone) : Linkage where
  Closes name image := ∃ clone ∈ clones, clone.source.name = name ∧ clone.fresh = image
  Links := program.CopiesPlace entry newName plan clones
  Strict := program.CopiesPlace entry newName plan clones
  Recalls _ _ := False
  Holds place literal := place.1 = entry ∧ plan[place.2]? = some (.fixed literal)
  Present place := place.1 = entry ∧ place.2 < plan.length
  LeftUnbound _ := False
  RightUnbound _ := False

/-- A linkage by which copied code runs. -/
structure LinksCopies (program : Program) (entry newName : Name) (plan : List Argument)
    (clones : List Clone) (linkage : Linkage) : Prop where
  closes : ∀ clone ∈ clones, linkage.Closes clone.source.name clone.fresh
  links : ∀ place target, CopiesPlace program entry newName plan clones place target →
    linkage.Links place target
  strict : ∀ place target, CopiesPlace program entry newName plan clones place target →
    linkage.Strict place target
  holds : ∀ index literal, plan[index]? = some (.fixed literal) → linkage.Holds (entry, index) literal
  present : ∀ index target, plan[index]? = some (.passed target) → linkage.Present (entry, index)

theorem linksCopies_copyLinkage (program : Program) (entry newName : Name) (plan : List Argument)
    (clones : List Clone) (LeftUnbound RightUnbound : Place → Prop) :
    LinksCopies program entry newName plan clones
      { program.copyLinkage entry newName plan clones with LeftUnbound, RightUnbound } where
  closes clone member := ⟨clone, member, rfl, rfl⟩
  links _ _ := id
  strict _ _ := id
  holds _ _ atIndex := ⟨rfl, atIndex⟩
  present _ _ atIndex := ⟨rfl, (List.getElem?_eq_some_iff.mp atIndex).1⟩

/-- The specialized program hosts its specialization. -/
theorem Specialized.hosts {program specialized : Program} {entry : Label} {newName : Name}
    {signature : Signature} {clones : List Clone} {LeafCopies : Node → Node → Prop}
    {Image : Handle → Handle → Prop}
    (built : program.Specialized specialized (definitions entry newName signature clones)
      LeafCopies Image) : program.Hosts specialized newName signature.arity clones where
  wellFormed := built.wellFormed
  old _ label found := ⟨label, built.find?_old found, rfl⟩
  new := by
    obtain ⟨label, _, _, found, signed, -⟩ := built.exists_find? List.mem_cons_self
    exact ⟨label, found, congrArg Signature.arity signed⟩
  clones clone member := by
    obtain ⟨label, _, _, found, signed, -⟩ :=
      built.exists_find? (List.mem_cons_of_mem _ (List.mem_map_of_mem member))
    exact ⟨label, found, congrArg Signature.arity signed⟩

section Specializing

variable {program host : Program} {entry : Label} {newName : Name} {plan : List Argument}
  {clones : List Clone} {continuations : List Name} {arity : Nat} {tolerance : Tolerance}

section Names

variable (encloses : program.Encloses entry continuations)
  (planned : program.Clones [newName] continuations clones)

include encloses planned

/-- The entry is no source of a clone and outside of no scope. -/
theorem CopiesName.ne_entry {name image : Name}
    (copies : program.CopiesName entry.name clones name image) : name ≠ entry.name := by
  cases copies with
  | clone member =>
    intro same
    refine encloses.excludes ?_
    rw [← same, ← planned.sources]
    exact List.mem_map_of_mem member
  | outer _ other => exact other

/-- The renaming of labels is one to one. -/
theorem CopiesName.iff {name image otherName otherImage : Name}
    (copies : program.CopiesName entry.name clones name image)
    (others : program.CopiesName entry.name clones otherName otherImage) :
    name = otherName ↔ image = otherImage := by
  have sources : (clones.map (·.source.name)).Nodup := by
    rw [planned.sources]
    exact encloses.distinct
  cases copies with
  | clone member =>
    cases others with
    | clone otherMember =>
      exact ⟨fun same => by rw [List.inj_on_of_nodup_map sources member otherMember same],
        fun same => by rw [List.inj_on_of_nodup_map planned.distinct member otherMember same]⟩
    | outer known other outside =>
      exact ⟨fun same => absurd (same ▸ List.mem_map_of_mem member) outside,
        fun same => absurd (same ▸ known) (planned.unknown _ member)⟩
  | outer known other outside =>
    cases others with
    | clone otherMember =>
      exact ⟨fun same => absurd (same ▸ List.mem_map_of_mem otherMember) outside,
        fun same => absurd (same ▸ known) (planned.unknown _ otherMember)⟩
    | outer => exact Iff.rfl

omit encloses in
theorem CopiesName.ne_newName (fresh : newName ∉ program.names) {name image : Name}
    (copies : program.CopiesName entry.name clones name image) : image ≠ newName := by
  cases copies with
  | clone member =>
    intro same
    exact planned.unreserved _ member (same ▸ List.mem_singleton_self _)
  | outer known => exact fun same => fresh (same ▸ known)

/-- A label and its copy can be entered together by a linkage that links only copies. -/
theorem CopiesName.enters (fresh : newName ∉ program.names)
    (hosts : program.Hosts host newName arity clones) {linkage : Linkage} {name image : Name}
    (copies : program.CopiesName entry.name clones name image)
    (count : ∀ expected actual, tolerance.Fails (.argumentCount name expected actual)
      (.argumentCount image expected actual))
    (links : ∀ place target, linkage.Links place target →
      program.CopiesPlace entry.name newName plan clones place target)
    (strict : ∀ place target, linkage.Strict place target → linkage.Links place target)
    (recalls : ∀ place target, ¬ linkage.Recalls place target)
    (holds : ∀ place literal, linkage.Holds place literal → place.1 = entry.name)
    (present : ∀ place, linkage.Present place → place.1 = entry.name)
    (leftUnbound : ∀ place, linkage.LeftUnbound place → place.1 ≠ name)
    (rightUnbound : ∀ place, linkage.RightUnbound place → place.1 ≠ image) :
    linkage.Enters program host tolerance name image where
  labels := by
    cases copies with
    | clone member =>
      obtain ⟨label, foundImage, sameArity⟩ := hosts.clones _ member
      exact ⟨_, label, planned.found _ member, foundImage, sameArity.symm⟩
    | outer known =>
      obtain ⟨label, found⟩ := mem_names_iff.mp known
      obtain ⟨image, foundImage, sameArity⟩ := hosts.old name label found
      exact ⟨label, image, found, foundImage, sameArity.symm⟩
  count := count
  links place target linked := by
    have differs := copies.ne_entry encloses planned
    cases links place target linked with
    | argument =>
      exact ⟨⟨fun same => absurd same.symm differs,
        fun same => absurd same.symm (copies.ne_newName planned fresh)⟩,
        fun same => absurd same.symm differs⟩
    | label others index => exact ⟨others.iff encloses planned copies, fun _ => rfl⟩
  strict := strict
  recalls place target recalling := absurd recalling (recalls place target)
  holds place literal held := by
    rw [holds place literal held]
    exact (copies.ne_entry encloses planned).symm
  present place bound := by
    rw [present place bound]
    exact (copies.ne_entry encloses planned).symm
  leftUnbound := leftUnbound
  rightUnbound := rightUnbound

end Names

theorem CopiesName.exists_parameter (wellFormed : program.WellFormed)
    (planned : program.Clones [newName] continuations clones)
    (hosts : program.Hosts host newName arity clones) {name image : Name}
    (copies : program.CopiesName entry.name clones name image) {index : Nat}
    (known : ∃ handle, program.parameter name index = .ok handle) :
    ∃ handle, host.parameter image index = .ok handle := by
  obtain ⟨label, found, inRange⟩ := wellFormed.exists_parameter_iff.mp known
  refine hosts.wellFormed.exists_parameter_iff.mpr ?_
  cases copies with
  | clone member =>
    obtain ⟨image, foundImage, sameArity⟩ := hosts.clones _ member
    rw [planned.found _ member] at found
    cases found
    exact ⟨image, foundImage, sameArity ▸ inRange⟩
  | outer =>
    obtain ⟨image, foundImage, sameArity⟩ := hosts.old name label found
    exact ⟨image, foundImage, sameArity ▸ inRange⟩

/-- A copied node has the value of the original. What the closure of a label outside of the scope
becomes is left open. -/
theorem Copies.agrees {Mode : Type} {linkages : Mode → Linkage} {mode : Mode}
    (wellFormed : program.WellFormed) (planned : program.Clones [newName] continuations clones)
    (hosts : program.Hosts host newName arity clones)
    (inRange : ∀ index target : Nat, plan[index]? = some (.passed target) → target < arity)
    (linkage : program.LinksCopies entry.name newName plan clones (linkages mode))
    (fails : ∀ name image index, program.CopiesName entry.name clones name image →
      tolerance.Fails (.unboundParameter name index) (.unboundParameter image index))
    {handle : Handle} {node imageNode : Node} (expression : program.Expression handle)
    (present : program.table.get? handle = some node)
    (copies : Copies entry.name newName plan clones node imageNode)
    (outer : ∀ name, node = .abstraction name → name ∈ program.names →
      name ∉ clones.map (·.source.name) → node.Agrees program host tolerance linkages mode node) :
    node.Agrees program host tolerance linkages mode imageNode := by
  have known {name : Name} {index : Nat}
      (isParameter : program.table.get? handle = some (.parameter name index)) :
      ∃ handle, program.parameter name index = .ok handle :=
    ⟨handle, parameter_eq_ok_iff.mpr (expression.mem_parameters wellFormed isParameter)⟩
  have copied {name image : Name} {index : Nat}
      (copiesName : program.CopiesName entry.name clones name image)
      (isParameter : program.table.get? handle = some (.parameter name index)) :
      (Node.parameter name index).Agrees program host tolerance linkages mode
        (.parameter image index) :=
    have copiesPlace := CopiesPlace.label copiesName index
    @Node.Agrees.parameter _ _ _ _ _ _ (name, index) (image, index) (known isParameter)
      (copiesName.exists_parameter wellFormed planned hosts (known isParameter))
      (linkage.links _ _ copiesPlace) (.inr (fails name image index copiesName))
      (.inl (linkage.strict _ _ copiesPlace))
  cases copies with
  | @argument index argument atIndex =>
    cases argument with
    | fixed literal => exact .constant (known present) (linkage.holds index literal atIndex)
    | passed target =>
      obtain ⟨label, foundImage, sameArity⟩ := hosts.new
      have targetKnown := hosts.wellFormed.exists_parameter_iff.mpr
        ⟨label, foundImage, sameArity ▸ inRange index target atIndex⟩
      exact .parameter (known present) targetKnown (linkage.links _ _ (.argument atIndex))
        (.inl (linkage.present index target atIndex)) (.inl (linkage.strict _ _ (.argument atIndex)))
  | closure member =>
    obtain ⟨label, foundImage, -⟩ := hosts.clones _ member
    exact .abstraction mode (mem_names_iff.mpr ⟨_, planned.found _ member⟩)
      (mem_names_iff.mpr ⟨label, foundImage⟩) (linkage.closes _ member) fun _ _ => id
  | parameter member index => exact copied (.clone member) present
  | outerClosure outside => exact outer _ rfl (expression.mem_names present) outside
  | @outerParameter name outside other index =>
    obtain ⟨label, found, -⟩ := expression.mem_parameters wellFormed present
    exact copied (.outer (mem_names_iff.mpr ⟨label, found⟩) other outside) present
  | quote literal => exact .quote literal

/-- Two configurations run alongside each other: they were entered together, or they are at the
specialized label in environments that are linked as in copied code. -/
def Alongside {Mode : Type} (linkages : Mode → Linkage) (copied : Mode) (entry newName : Name)
    (config image : Configuration) : Prop :=
  (∃ mode, Entered linkages mode config image) ∨
    config.name = entry ∧ image.name = newName ∧ Linked linkages copied config.env image.env

section Halting

variable {Mode : Type} {linkages : Mode → Linkage} {copied : Mode} {halts : List Name}
  {config image : Configuration} (planned : program.Clones [newName] continuations clones)
  (fresh : newName ∉ program.names)
  (closes : ∀ mode name image, (linkages mode).Closes name image →
    image = name ∨ ∃ clone ∈ clones, clone.source.name = name ∧ clone.fresh = image)
  (outside : ∀ halt ∈ halts, halt ∈ program.names ∧ halt ≠ entry.name ∧ halt ∉ continuations)

include planned fresh closes outside

/-- Configurations alongside each other only halt at the same label: neither the entry and its scope
nor their copies are halting labels. -/
theorem Alongside.exists_entered
    (alongside : Alongside linkages copied entry.name newName config image)
    (stops : config.name ∈ halts ∨ image.name ∈ halts) :
    ∃ mode, image.name = config.name ∧ Entered linkages mode config image := by
  rcases alongside with ⟨mode, entered⟩ | ⟨atEntry, atNew, -⟩
  · refine ⟨mode, ?_, entered⟩
    rcases closes mode _ _ entered.closes with same | ⟨clone, member, atSource, atFresh⟩
    · exact same
    · rcases stops with stops | stops
      · refine absurd ?_ (outside _ stops).2.2
        rw [← atSource, ← planned.sources]
        exact List.mem_map_of_mem member
      · exact absurd (atFresh ▸ (outside _ stops).1) (planned.unknown clone member)
  · rcases stops with stops | stops
    · exact absurd atEntry (outside _ stops).2.1
    · exact absurd (atNew ▸ (outside _ stops).1) fresh

theorem Alongside.mem_halts_iff
    (alongside : Alongside linkages copied entry.name newName config image) :
    config.name ∈ halts ↔ image.name ∈ halts := by
  constructor
  · intro stops
    obtain ⟨-, same, -⟩ := alongside.exists_entered planned fresh closes outside (.inl stops)
    rwa [same]
  · intro stops
    obtain ⟨-, same, -⟩ := alongside.exists_entered planned fresh closes outside (.inr stops)
    rwa [← same]

end Halting

end Specializing

end CpsGraph.Program
