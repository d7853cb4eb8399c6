import CpsGraph.Proofs.Clones
import CpsGraph.Proofs.Rebuilding
import CpsGraph.Proofs.Scopes

/-! # What specialization builds

Specializing a label of a valid program under a new name always succeeds. The old labels stay, and
the new ones come after them: the specialized label and the clones of its scope. Their bodies are
images of old bodies, in which the parameters of the label are replaced as given, and the closures
and parameters of the scope are those of the clones.
-/

namespace CpsGraph

/-- A label that copies a body. -/
structure Definition where
  name : Name
  signature : Signature
  body : Handle

namespace Substitution

variable {substitution : Substitution} {base : Table} {state : State}

/-- A label is defined as planned, with the image of the planned body. -/
structure Defines (Image : Handle → Handle → Prop) (definition : Definition) (label : Label) :
    Prop where
  name : label.name = definition.name
  signature : label.signature = definition.signature
  body : Image definition.body label.body

section Defining

variable (targets : ∀ handle image, substitution.lookup handle = some image → image < base.size)
  (wellFormed : base.WellFormed)

include targets wellFormed

theorem Sound.exists_defineFrom (sound : Sound substitution base state) {definition : Definition}
    {node : Node} (fresh : definition.name ∉ state.program.names)
    (present : base.get? definition.body = some node) (isBody : node.isBody = true)
    (unreplaced : substitution.lookup definition.body = none) :
    ∃ label later,
      (substitution.defineFrom definition.name definition.signature definition.body).run state =
        .ok ((), later) ∧ Sound substitution base later ∧ Continues state later ∧
      later.program.labels = state.program.labels ++ [label] ∧
      Defines (substitution.Maps later.rebuilt) definition label := by
  obtain ⟨image, middle, ran, soundMiddle, toMiddle, labelsMiddle, maps⟩ :=
    succeeds_apply targets wellFormed (Table.lt_size_of_get? present) state sound trivial
  obtain ⟨imageNode, imagePresent, imageIsBody⟩ :=
    soundMiddle.exists_body present isBody unreplaced maps
  have stillFresh : definition.name ∉ middle.program.names := by
    rwa [Program.names, labelsMiddle]
  obtain ⟨grown, label, defined, grownWellFormed, growth, labels, named, signed, rfl⟩ :=
    soundMiddle.wellFormed.exists_define stillFresh imagePresent imageIsBody
      definition.signature false
  refine ⟨label, { middle with program := grown }, ?_, soundMiddle.grow growth grownWellFormed,
    toMiddle.trans ⟨growth, List.Subset.refl _⟩, ?_, named, signed, maps⟩
  · rw [defineFrom, StateT.run_bind, ran]
    change ((liftM (middle.program.define _ _ _ _) : RebuildM Program).run middle >>= _) = _
    rw [defined]
    rfl
  · rw [labels, labelsMiddle]

/-- Several labels with different new names can be defined one after the other. -/
theorem Sound.exists_defineAll (sound : Sound substitution base state)
    {definitions : List Definition}
    (distinct : (state.program.names ++ definitions.map (·.name)).Nodup)
    (bodies : ∀ definition ∈ definitions, ∃ node, base.get? definition.body = some node ∧
      node.isBody = true ∧ substitution.lookup definition.body = none) :
    ∃ labels later, (definitions.forM fun definition => substitution.defineFrom definition.name
        definition.signature definition.body).run state = .ok ((), later) ∧
      Sound substitution base later ∧ Continues state later ∧
      later.program.labels = state.program.labels ++ labels ∧
      List.Forall₂ (Defines (substitution.Maps later.rebuilt)) definitions labels := by
  induction definitions generalizing state with
  | nil => exact ⟨[], state, rfl, sound, .refl state, (List.append_nil _).symm, .nil⟩
  | cons definition definitions ih =>
    obtain ⟨node, present, isBody, unreplaced⟩ := bodies definition List.mem_cons_self
    have fresh : definition.name ∉ state.program.names := by
      intro known
      exact (List.nodup_append.mp distinct).2.2 _ known _ List.mem_cons_self rfl
    obtain ⟨label, middle, ran, soundMiddle, toMiddle, labelsMiddle, defines⟩ :=
      sound.exists_defineFrom targets wellFormed fresh present isBody unreplaced
    have namesMiddle : middle.program.names = state.program.names ++ [definition.name] := by
      rw [Program.names, labelsMiddle, List.map_append, List.map_singleton, defines.name]
      rfl
    obtain ⟨labels, later, ranRest, soundLater, toLater, labelsLater, definesRest⟩ :=
      ih soundMiddle (by rwa [namesMiddle, List.append_assoc]) fun other member =>
        bodies other (List.mem_cons_of_mem _ member)
    refine ⟨label :: labels, later, ?_, soundLater, toMiddle.trans toLater, ?_, .cons ?_ definesRest⟩
    · change (substitution.defineFrom _ _ _ >>= fun _ => definitions.forM _).run state = _
      rw [StateT.run_bind, ran]
      exact ranRest
    · rw [labelsLater, labelsMiddle, List.append_assoc]
      rfl
    · exact ⟨defines.name, defines.signature, defines.body.mono toLater.rebuilt⟩

end Defining

end Substitution

/-- The definition of a clone: it copies the body of its source. -/
def Clone.definition (clone : Clone) : Definition :=
  ⟨clone.fresh, clone.source.signature, clone.source.body⟩

/-- What a parameter of a specialized label stands for: a fixed literal, or an argument that is
still passed. -/
inductive Argument where
  | fixed (literal : Literal)
  | passed (index : Nat)
deriving Repr, DecidableEq

/-- The node that stands for a parameter in the specialized label. -/
def Argument.node (newName : Name) : Argument → Node
  | .fixed literal => .quote literal
  | .passed index => .parameter newName index

namespace Program

/-- Intern the nodes that stand for the parameters of a label to be specialized. -/
def prepare (program : Program) (newName : Name) (plan : List Argument) : List Handle × Program :=
  let (handles, table) := program.table.internAll (plan.map (·.node newName))
  (handles, { program with table })

/-- A substitution replaces exactly the parameters of a label, each by what is planned for it. -/
structure Replaces (program : Program) (entry : Label) (newName : Name) (plan : List Argument)
    (substitution : Substitution) : Prop where
  keys : ∀ pair ∈ substitution, pair.1 ∈ entry.parameters
  arguments : entry.parameters.map (fun parameter =>
    (substitution.lookup parameter).bind program.table.get?) =
      plan.map fun argument => some (argument.node newName)

instance (program : Program) (entry : Label) (newName : Name) (plan : List Argument)
    (substitution : Substitution) : Decidable (program.Replaces entry newName plan substitution) :=
  decidable_of_iff (_ ∧ _) ⟨fun ⟨keys, arguments⟩ => ⟨keys, arguments⟩,
    fun ⟨keys, arguments⟩ => ⟨keys, arguments⟩⟩

theorem Replaces.exists_argument {program : Program} {entry : Label} {newName : Name}
    {plan : List Argument} {substitution : Substitution}
    (replaces : program.Replaces entry newName plan substitution) {index : Nat} {handle : Handle}
    (atIndex : entry.parameters[index]? = some handle) :
    ∃ argument image, plan[index]? = some argument ∧ substitution.lookup handle = some image ∧
      program.table.get? image = some (argument.node newName) := by
  have atPlan := congrArg (·[index]?) replaces.arguments
  simp only [List.getElem?_map, atIndex, Option.map_some] at atPlan
  obtain ⟨argument, inPlan, present⟩ := Option.map_eq_some_iff.mp atPlan.symm
  obtain ⟨image, given, present⟩ := Option.bind_eq_some_iff.mp present.symm
  exact ⟨argument, image, inPlan, given, present⟩

theorem Replaces.length_plan {program : Program} {entry : Label} {name newName : Name}
    {plan : List Argument} {substitution : Substitution} (wellFormed : program.WellFormed)
    (found : program.find? name = some entry)
    (replaces : program.Replaces entry newName plan substitution) : plan.length = entry.arity := by
  have lengths := congrArg List.length replaces.arguments
  rw [List.length_map, List.length_map, (wellFormed.registered found).length_parameters] at lengths
  exact lengths.symm

/-- What a node without parts becomes in a copied body. The closure of the entry stays. -/
inductive Copies (entry newName : Name) (plan : List Argument) (clones : List Clone) :
    Node → Node → Prop
  | argument {index : Nat} {argument : Argument} (atIndex : plan[index]? = some argument) :
      Copies entry newName plan clones (.parameter entry index) (argument.node newName)
  | closure {clone : Clone} (member : clone ∈ clones) :
      Copies entry newName plan clones (.abstraction clone.source.name) (.abstraction clone.fresh)
  | parameter {clone : Clone} (member : clone ∈ clones) (index : Nat) :
      Copies entry newName plan clones (.parameter clone.source.name index)
        (.parameter clone.fresh index)
  | outerClosure {name : Name} (outside : name ∉ clones.map (·.source.name)) :
      Copies entry newName plan clones (.abstraction name) (.abstraction name)
  | outerParameter {name : Name} (outside : name ∉ clones.map (·.source.name))
      (other : name ≠ entry) (index : Nat) :
      Copies entry newName plan clones (.parameter name index) (.parameter name index)
  | quote (literal : Literal) :
      Copies entry newName plan clones (.quote literal) (.quote literal)

section Copying

variable {program : Program} {entry : Label} {newName name : Name} {plan : List Argument}
  {substitution : Substitution} {clones : List Clone} {reserved names : List Name}
  {handle image : Handle}

/-- The replacements that specialization makes: the given ones and those of the clones. -/
def replacements (program : Program) (substitution : Substitution) (clones : List Clone) :
    Substitution :=
  substitution ++ (clones.flatMap Clone.renamed).zip
    (program.table.internAll (clones.flatMap Clone.nodes)).1

variable (wellFormed : program.WellFormed) (found : program.find? name = some entry)
  (replaces : program.Replaces entry newName plan substitution)
  (planned : program.Clones reserved names clones)

include wellFormed planned

/-- What is replaced without being given is the closure or a parameter of a clone's source. -/
theorem exists_clone_of_lookup (notGiven : substitution.lookup handle = none)
    (replaced : (program.replacements substitution clones).lookup handle = some image) :
    ∃ clone ∈ clones, (program.table.get? handle = some (.abstraction clone.source.name) ∧
        (program.table.internAll (clones.flatMap Clone.nodes)).2.get? image =
          some (.abstraction clone.fresh)) ∨
      ∃ index, program.table.get? handle = some (.parameter clone.source.name index) ∧
        (program.table.internAll (clones.flatMap Clone.nodes)).2.get? image =
          some (.parameter clone.fresh index) := by
  rw [replacements, List.lookup_append, notGiven, Option.none_or] at replaced
  obtain ⟨clone, member, node, renames, present⟩ :=
    Results.related_of_lookup_zip (Clone.renames_internAll program.table clones) replaced
  have registered := wellFormed.registered (planned.found clone member)
  refine ⟨clone, member, ?_⟩
  cases renames with
  | closure => exact .inl ⟨registered.abstraction, present⟩
  | parameter atIndex => exact .inr ⟨_, registered.get?_parameter atIndex, present⟩

include found replaces

/-- What is replaced is a parameter of the label, or a closure or a parameter of a clone. -/
theorem copies_of_lookup
    (replaced : (program.replacements substitution clones).lookup handle = some image) :
    ∃ node imageNode, program.table.get? handle = some node ∧
      (program.table.internAll (clones.flatMap Clone.nodes)).2.get? image = some imageNode ∧
      Copies entry.name newName plan clones node imageNode := by
  cases given : substitution.lookup handle with
  | some replacement =>
    rw [replacements, List.lookup_append, given] at replaced
    cases replaced
    obtain ⟨index, atIndex⟩ :=
      List.mem_iff_getElem?.mp (replaces.keys _ (Results.mem_of_lookup given))
    obtain ⟨argument, _, inPlan, givenAgain, present⟩ := replaces.exists_argument atIndex
    rw [given] at givenAgain
    cases givenAgain
    exact ⟨_, _, (wellFormed.registered found).get?_parameter atIndex,
      Table.extends_internAll _ _ present, .argument inPlan⟩
  | none =>
    obtain ⟨clone, member, ⟨present, imagePresent⟩ | ⟨index, present, imagePresent⟩⟩ :=
      exists_clone_of_lookup wellFormed planned given replaced
    · exact ⟨_, _, present, imagePresent, .closure member⟩
    · exact ⟨_, _, present, imagePresent, .parameter member index⟩

/-- Bodies are not replaced. -/
theorem lookup_of_body {node : Node} (present : program.table.get? handle = some node)
    (validBody : program.ValidBody node) :
    (program.replacements substitution clones).lookup handle = none := by
  refine Option.eq_none_iff_forall_ne_some.mpr fun image replaced => ?_
  obtain ⟨_, _, presentAgain, -, copies⟩ :=
    copies_of_lookup wellFormed found replaces planned replaced
  rw [present] at presentAgain
  cases presentAgain
  cases copies <;> cases validBody

/-- An expression without parts that is not replaced is outside of what is specialized. -/
theorem copies_of_unreplaced (expression : program.Expression handle) {node : Node}
    (present : program.table.get? handle = some node) (atomic : node.isAtomic = true)
    (unreplaced : (program.replacements substitution clones).lookup handle = none) :
    Copies entry.name newName plan clones node node := by
  rw [replacements, List.lookup_append, Option.or_eq_none_iff] at unreplaced
  obtain ⟨notGiven, notRenamed⟩ := unreplaced
  have unrenamed {clone : Clone} (member : clone ∈ clones) : handle ∉ clone.renamed := fun inside =>
    Results.not_mem_of_lookup_zip (Clone.renames_internAll program.table clones) notRenamed
      (List.mem_flatMap_of_mem member inside)
  cases node with
  | abstraction target =>
    refine .outerClosure fun isSource => ?_
    obtain ⟨clone, member, rfl⟩ := List.mem_map.mp isSource
    have registered := wellFormed.registered (planned.found clone member)
    have same := wellFormed.table.get?_inj present registered.abstraction
    exact unrenamed member (same ▸ List.mem_cons_self)
  | parameter target index =>
    obtain ⟨label, foundLabel, atIndex⟩ := expression.mem_parameters wellFormed present
    refine .outerParameter (fun isSource => ?_) (fun isEntry => ?_) index
    · obtain ⟨clone, member, rfl⟩ := List.mem_map.mp isSource
      rw [planned.found clone member] at foundLabel
      cases foundLabel
      exact unrenamed member (List.mem_cons_of_mem _ (List.mem_of_getElem? atIndex))
    · rw [isEntry, name_of_find? found, found] at foundLabel
      cases foundLabel
      obtain ⟨_, _, -, given, -⟩ := replaces.exists_argument atIndex
      rw [notGiven] at given
      cases given
  | quote literal => exact .quote literal
  | continuation => cases expression.isExpression present
  | call | branch | primitive | cast => cases atomic

variable {state : Substitution.State}
  (sound : Substitution.Sound (program.replacements substitution clones)
    (program.table.internAll (clones.flatMap Clone.nodes)).2 state)

include sound

/-- The image of an expression is a copy of it, or made of the images of its children. -/
theorem copies_or_matches (expression : program.Expression handle)
    (maps : (program.replacements substitution clones).Maps state.rebuilt handle image) :
    ∃ node imageNode, program.table.get? handle = some node ∧
      state.program.table.get? image = some imageNode ∧
      (Copies entry.name newName plan clones node imageNode ∨ node.Matches (fun child childImage =>
        program.Expression child ∧
          (program.replacements substitution clones).Maps state.rebuilt child childImage)
        imageNode) := by
  have growth := program.table.extends_internAll (clones.flatMap Clone.nodes)
  rcases maps with replaced | ⟨unreplaced, member⟩
  · obtain ⟨node, imageNode, present, imagePresent, copies⟩ :=
      copies_of_lookup wellFormed found replaces planned replaced
    exact ⟨node, imageNode, present, sound.growth imagePresent, .inl copies⟩
  · obtain ⟨node, present⟩ := expression.exists_get?
    cases sound.rebuilt handle image member with
    | kept presentAgain atomic =>
      rw [growth present] at presentAgain
      cases presentAgain
      exact ⟨node, node, present, sound.growth (growth present), .inl
        (copies_of_unreplaced wellFormed found replaces planned expression present atomic unreplaced)⟩
    | rebuilt presentAgain imagePresent parts =>
      rw [growth present] at presentAgain
      cases presentAgain
      exact ⟨node, _, present, imagePresent, .inr (parts.imp fun child childImage isChild maps =>
        ⟨expression.child present isChild, maps⟩)⟩

/-- The image of a body is made of the images of its children. -/
theorem matches_of_body {node : Node} (present : program.table.get? handle = some node)
    (validBody : program.ValidBody node)
    (maps : (program.replacements substitution clones).Maps state.rebuilt handle image) :
    ∃ imageNode, state.program.table.get? image = some imageNode ∧
      node.Matches (fun child childImage => program.Expression child ∧
        (program.replacements substitution clones).Maps state.rebuilt child childImage)
        imageNode := by
  have growth := program.table.extends_internAll (clones.flatMap Clone.nodes)
  rcases maps with replaced | ⟨-, member⟩
  · rw [lookup_of_body wellFormed found replaces planned present validBody] at replaced
    cases replaced
  · cases sound.rebuilt handle image member with
    | kept presentAgain atomic =>
      rw [growth present] at presentAgain
      cases presentAgain
      cases validBody <;> cases atomic
    | rebuilt presentAgain imagePresent parts =>
      rw [growth present] at presentAgain
      cases presentAgain
      exact ⟨_, imagePresent, parts.imp fun child childImage isChild maps =>
        ⟨validBody.child isChild, maps⟩⟩

end Copying

/-- The labels that specialization defines: the new one and the clones. -/
def definitions (entry : Label) (newName : Name) (signature : Signature) (clones : List Clone) :
    List Definition :=
  ⟨newName, signature, entry.body⟩ :: clones.map Clone.definition

theorem names_definitions (entry : Label) (newName : Name) (signature : Signature)
    (clones : List Clone) : (definitions entry newName signature clones).map (·.name) =
      newName :: clones.map (·.fresh) := by
  rw [definitions, List.map_cons, List.map_map]
  rfl

/-- The planned bodies are bodies of labels. -/
theorem exists_label_of_mem_definitions {program : Program} {entry : Label} {name newName : Name}
    {signature : Signature} {clones : List Clone} {reserved names : List Name}
    (found : program.find? name = some entry) (planned : program.Clones reserved names clones)
    {definition : Definition} (member : definition ∈ definitions entry newName signature clones) :
    ∃ label ∈ program.labels, definition.body = label.body := by
  rcases List.mem_cons.mp member with rfl | member
  · exact ⟨entry, mem_of_find? found, rfl⟩
  · obtain ⟨clone, isClone, rfl⟩ := List.mem_map.mp member
    exact ⟨clone.source, mem_of_find? (planned.found clone isClone), rfl⟩

section Planned

variable {program : Program} {entry : Label} {newName : Name} {clones : List Clone} {names : List Name}
  (wellFormed : program.WellFormed)

include wellFormed

/-- The names of the new labels are new and differ from each other. -/
theorem nodup_definitions (fresh : newName ∉ program.names)
    (planned : program.Clones [newName] names clones) (signature : Signature) :
    (program.names ++ (definitions entry newName signature clones).map (·.name)).Nodup := by
  rw [names_definitions]
  refine List.nodup_append'.mpr ⟨wellFormed.names, List.nodup_cons.mpr
    ⟨fun member => ?_, planned.distinct⟩, List.disjoint_cons_right.mpr ⟨fresh, ?_⟩⟩
  · obtain ⟨clone, isClone, same⟩ := List.mem_map.mp member
    exact planned.unreserved clone isClone (same ▸ List.mem_singleton_self _)
  · intro other known member
    obtain ⟨clone, isClone, rfl⟩ := List.mem_map.mp member
    exact planned.unknown clone isClone known

theorem wellFormed_internAll_nodes (clones : List Clone) :
    (program.table.internAll (clones.flatMap Clone.nodes)).2.WellFormed := by
  refine wellFormed.table.internAll fun node member child part => ?_
  obtain ⟨clone, -, isNode⟩ := List.mem_flatMap.mp member
  rw [Clone.children_of_mem_nodes isNode] at part
  cases part

/-- With the nodes of the clones interned, rebuilding starts from a sound state. -/
theorem sound_internAll_nodes (substitution : Substitution) (clones : List Clone) :
    Substitution.Sound substitution (program.table.internAll (clones.flatMap Clone.nodes)).2
      { program := { program with
          table := (program.table.internAll (clones.flatMap Clone.nodes)).2 } } :=
  ⟨Table.extends_refl _, wellFormed.grow (program.table.extends_internAll _)
    (wellFormed_internAll_nodes wellFormed clones) rfl, nofun⟩

end Planned

/-- What specialization builds: the program with further labels, whose bodies match planned bodies
in their children. An image is a copy, or matches in its children as well. -/
structure Specialized (program specialized : Program) (definitions : List Definition)
    (Copies : Node → Node → Prop) (Image : Handle → Handle → Prop) : Prop where
  wellFormed : specialized.WellFormed
  growth : specialized.table.Extends program.table
  labels : ∃ copies, specialized.labels = program.labels ++ copies ∧
    List.Forall₂ (Substitution.Defines fun body image => ∃ node imageNode,
      program.table.get? body = some node ∧ specialized.table.get? image = some imageNode ∧
        node.Matches Image imageNode) definitions copies
  expression : ∀ handle image, Image handle image → program.Expression handle
  image : ∀ handle image, Image handle image → ∃ node imageNode,
    program.table.get? handle = some node ∧ specialized.table.get? image = some imageNode ∧
      (Copies node imageNode ∨ node.Matches Image imageNode)

variable {program : Program} {entry : Label} {newName name : Name} {plan : List Argument}
  {substitution : Substitution}

/-- Once the clones are planned, specialization ends as the definition of the new labels does. -/
theorem specialize_eq_run {scope : Scope} {clones : List Clone} {signature : Signature}
    (hasScope : program.scope name = .ok scope) (found : program.find? name = some entry)
    (fresh : newName ∉ program.names)
    (planned : program.planClones [newName] scope.continuations = .ok clones) :
    program.specialize name newName signature substitution =
      (((definitions entry newName signature clones).forM fun definition =>
        (program.replacements substitution clones).defineFrom definition.name definition.signature
          definition.body).run { program := { program with
            table := (program.table.internAll (clones.flatMap Clone.nodes)).2 } }).map
              (·.2.program) := by
  have unknown : program.contains newName = false := by
    rw [← Bool.not_eq_true, contains_iff]
    exact fresh
  have sameRun : (definitions entry newName signature clones).forM (fun definition =>
      (program.replacements substitution clones).defineFrom definition.name definition.signature
        definition.body) = (do
      (program.replacements substitution clones).defineFrom newName signature entry.body
      clones.forM fun clone => (program.replacements substitution clones).defineFrom clone.fresh
        clone.source.signature clone.source.body) :=
    bind_congr fun _ => List.forM_map
  rw [specialize, specializeReport, hasScope, resolve_eq_ok_iff.mpr found, unknown]
  change (Report.ofSuccess (program.planClones [newName] scope.continuations >>= _)).outcome = _
  rw [planned]
  change (Report.ofSuccess (StateT.run (do
      (program.replacements substitution clones).defineFrom newName signature entry.body
      clones.forM fun clone => (program.replacements substitution clones).defineFrom clone.fresh
        clone.source.signature clone.source.body) _ >>= _)).outcome = _
  rw [← sameRun]
  generalize StateT.run _ _ = outcome
  cases outcome <;> rfl

/-- Once the clones are planned, specialization succeeds if the replacements are nodes and no body is
replaced. -/
theorem exists_specialize_of_planned (wellFormed : program.WellFormed) {scope : Scope}
    {clones : List Clone} (hasScope : program.scope name = .ok scope)
    (success : program.planClones [newName] scope.continuations = .ok clones)
    (planned : program.Clones [newName] scope.continuations clones)
    (found : program.find? name = some entry) (fresh : newName ∉ program.names)
    (targets : ∀ handle image,
      (program.replacements substitution clones).lookup handle = some image →
        image < (program.table.internAll (clones.flatMap Clone.nodes)).2.size)
    (unreplaced : ∀ label ∈ program.labels,
      (program.replacements substitution clones).lookup label.body = none) (signature : Signature) :
    ∃ copies later, program.specialize name newName signature substitution = .ok later.program ∧
      Substitution.Sound (program.replacements substitution clones)
        (program.table.internAll (clones.flatMap Clone.nodes)).2 later ∧
      later.program.labels = program.labels ++ copies ∧
      List.Forall₂ (Substitution.Defines
        ((program.replacements substitution clones).Maps later.rebuilt))
        (definitions entry newName signature clones) copies := by
  obtain ⟨copies, later, ran, soundLater, -, labels, defines⟩ :=
    (sound_internAll_nodes wellFormed _ clones).exists_defineAll targets
      (wellFormed_internAll_nodes wellFormed clones)
      (nodup_definitions wellFormed fresh planned signature) fun definition member => by
      obtain ⟨label, isLabel, sameBody⟩ := exists_label_of_mem_definitions found planned member
      obtain ⟨node, present, isBody⟩ := (wellFormed.labels label isLabel).body
      rw [sameBody]
      exact ⟨node, program.table.extends_internAll _ present, isBody, unreplaced label isLabel⟩
  refine ⟨copies, later, ?_, soundLater, labels, defines⟩
  rw [specialize_eq_run hasScope found fresh success, ran]
  rfl

/-- Specializing a label of a valid program under a new name succeeds. -/
theorem exists_specialize (wellFormed : program.WellFormed) (valid : program.Valid)
    (found : program.find? name = some entry) (fresh : newName ∉ program.names)
    (replaces : program.Replaces entry newName plan substitution) (signature : Signature) :
    ∃ scope clones specialized Image, program.scope name = .ok scope ∧
      program.planClones [newName] scope.continuations = .ok clones ∧
      program.specialize name newName signature substitution = .ok specialized ∧
      program.Encloses entry scope.continuations ∧
      program.Clones [newName] scope.continuations clones ∧
      program.Specialized specialized (definitions entry newName signature clones)
        (Copies entry.name newName plan clones) Image := by
  obtain ⟨scope, hasScope, encloses⟩ := exists_scope wellFormed (valid.faultless wellFormed) found
  obtain ⟨clones, success, planned⟩ := exists_planClones program [newName] encloses.known
  have targets : ∀ handle image,
      (program.replacements substitution clones).lookup handle = some image →
        image < (program.table.internAll (clones.flatMap Clone.nodes)).2.size := by
    intro handle image replaced
    obtain ⟨_, _, -, imagePresent, -⟩ :=
      copies_of_lookup wellFormed found replaces planned replaced
    exact Table.lt_size_of_get? imagePresent
  have unreplaced : ∀ label ∈ program.labels,
      (program.replacements substitution clones).lookup label.body = none := by
    intro label isLabel
    obtain ⟨node, present, validBody⟩ := valid label isLabel
    exact lookup_of_body wellFormed found replaces planned present validBody
  obtain ⟨copies, later, specializes, soundLater, labels, defines⟩ := exists_specialize_of_planned
    wellFormed hasScope success planned found fresh targets unreplaced signature
  refine ⟨scope, clones, later.program, fun handle image => program.Expression handle ∧
    (program.replacements substitution clones).Maps later.rebuilt handle image, hasScope, success,
    specializes, encloses, planned, soundLater.wellFormed,
    soundLater.growth.trans (program.table.extends_internAll _), ⟨copies, labels, ?_⟩,
    fun _ _ => And.left, ?_⟩
  · have bodies : ∀ definition ∈ definitions entry newName signature clones, ∃ node,
        program.table.get? definition.body = some node ∧ program.ValidBody node := by
      intro definition member
      obtain ⟨label, isLabel, sameBody⟩ := exists_label_of_mem_definitions found planned member
      rw [sameBody]
      exact valid label isLabel
    refine ((List.forall₂_and_left _ _).mpr ⟨bodies, defines⟩).imp fun definition label both => ?_
    obtain ⟨⟨node, present, validBody⟩, define⟩ := both
    refine ⟨define.name, define.signature, ?_⟩
    obtain ⟨imageNode, imagePresent, parts⟩ :=
      matches_of_body wellFormed found replaces planned soundLater present validBody define.body
    exact ⟨node, imageNode, present, imagePresent, parts⟩
  · rintro handle image ⟨expression, maps⟩
    exact copies_or_matches wellFormed found replaces planned soundLater expression maps

/-- Adding labels behind the others keeps the labels. -/
theorem find?_of_labels_append {grown : Program} {label : Label} {added : List Label}
    (labels : grown.labels = program.labels ++ added) (found : program.find? name = some label) :
    grown.find? name = some label := by
  rw [find?] at found ⊢
  rw [labels, List.find?_append, found, Option.some_or]

section Labels

variable {specialized : Program} {plannedDefinitions : List Definition}
  {LeafCopies : Node → Node → Prop} {Image : Handle → Handle → Prop}
  (built : program.Specialized specialized plannedDefinitions LeafCopies Image)

include built

/-- Specialization keeps the labels. -/
theorem Specialized.find?_old {label : Label} (found : program.find? name = some label) :
    specialized.find? name = some label := by
  obtain ⟨copies, labels, -⟩ := built.labels
  exact find?_of_labels_append labels found

/-- The planned labels are there, with copied bodies. -/
theorem Specialized.exists_find? {definition : Definition} (member : definition ∈ plannedDefinitions) :
    ∃ label node imageNode, specialized.find? definition.name = some label ∧
      label.signature = definition.signature ∧ program.table.get? definition.body = some node ∧
      specialized.table.get? label.body = some imageNode ∧ node.Matches Image imageNode := by
  obtain ⟨copies, labels, defines⟩ := built.labels
  obtain ⟨label, isCopy, define⟩ := Results.exists_right_of_mem defines member
  have isLabel : label ∈ specialized.labels := labels ▸ List.mem_append_right _ isCopy
  obtain ⟨node, imageNode, present, imagePresent, parts⟩ := define.body
  refine ⟨label, node, imageNode, ?_, define.signature, present, imagePresent, parts⟩
  rw [← define.name]
  exact find?_of_mem built.wellFormed.names isLabel

end Labels

end Program

end CpsGraph
