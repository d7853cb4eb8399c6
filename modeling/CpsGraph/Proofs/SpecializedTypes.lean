import CpsGraph.Proofs.SpecializationOutcomes
import CpsGraph.Proofs.TypeChecking
import CpsGraph.Samples

/-! # Specialization keeps types

Specializing a label rebuilds bodies with two kinds of replacements: the given ones, and the closures
and parameters of the clones. A clone has the signature of its source, so the latter keep types. If
the given replacements do so as well, then every image has the type of what it is the image of. No
body is replaced, since what is replaced has a type. So all new bodies are well typed, and the old
ones still are.
-/

namespace CpsGraph.Program

variable {program : Program} {name newName continuation : Name} {entry : Label} {signature : Signature}
  {substitution : Substitution} {clones : List Clone} {handle image : Handle} {node imageNode : Node}
  {ty : Ty}

/-- An expression made of images has the type of the original if the images of its children do. -/
theorem HasTy.of_matches {other : Program} {Related : Handle → Handle → Prop}
    (hasTy : program.HasTy handle ty) (present : program.table.get? handle = some node)
    (imagePresent : other.table.get? image = some imageNode) (parts : node.Matches Related imageNode)
    (children : ∀ child ∈ node.children, ∀ childImage childTy, Related child childImage →
      program.HasTy child childTy → other.HasTy childImage childTy) : other.HasTy image ty := by
  cases parts with
  | primitive atOperands =>
    cases hasTy with
    | primitive here arity operandTy =>
      rw [present] at here
      cases here
      refine .primitive imagePresent (atOperands.length_eq ▸ arity) fun newOperand member => ?_
      obtain ⟨operand, isOperand, related⟩ := Results.exists_left_of_mem atOperands member
      exact children operand isOperand newOperand _ related (operandTy operand isOperand)
    | abstraction here | parameter here | quote here | cast here =>
      rw [present] at here
      cases here
  | cast atSource =>
    cases hasTy with
    | cast here sourceTy castable =>
      rw [present] at here
      cases here
      exact .cast imagePresent (children _ List.mem_cons_self _ _ atSource sourceTy) castable
    | abstraction here | parameter here | quote here | primitive here =>
      rw [present] at here
      cases here
  | call | branch =>
    cases hasTy with
    | abstraction here | parameter here | quote here | primitive here | cast here =>
      rw [present] at here
      cases here

/-- A body made of images is well typed if the images of its children have their types. -/
theorem BodyTyped.of_matches {other : Program} {Related : Handle → Handle → Prop}
    (bodyTyped : program.BodyTyped node) (parts : node.Matches Related imageNode)
    (children : ∀ child childImage childTy, Related child childImage →
      program.HasTy child childTy → other.HasTy childImage childTy) : other.BodyTyped imageNode := by
  cases bodyTyped with
  | call calleeTy argumentTy =>
    obtain ⟨atCallee, atArguments⟩ := parts
    refine .call (children _ _ _ atCallee calleeTy)
      (Results.forall₂_of_common atArguments argumentTy ?_)
    rintro argument newArgument argumentTy - - related hasTy
    exact children argument newArgument argumentTy related hasTy
  | branch conditionTy trueTy falseTy =>
    rcases parts with _ | ⟨_ | ⟨atCondition, _ | ⟨atTrue, _ | ⟨atFalse, _ | _⟩⟩⟩⟩
    exact .branch (children _ _ _ atCondition conditionTy) (children _ _ _ atTrue trueTy)
      (children _ _ _ atFalse falseTy)

/-- A body has no type. -/
theorem HasTy.isBody_eq_false (wellFormed : program.WellFormed) (hasTy : program.HasTy handle ty)
    (present : program.table.get? handle = some node) : node.isBody = false := by
  have isExpression := (hasTy.expression wellFormed).isExpression present
  cases node with
  | call | branch => cases isExpression
  | _ => rfl

/-- Bodies are not replaced if all that is replaced has a type. -/
theorem lookup_body_of_hasTy (wellFormed : program.WellFormed) {reserved names : List Name}
    (planned : program.Clones reserved names clones)
    (typable : ∀ key value, substitution.lookup key = some value → ∃ ty, program.HasTy key ty)
    {label : Label} (isLabel : label ∈ program.labels) :
    (program.replacements substitution clones).lookup label.body = none := by
  obtain ⟨node, present, isBody⟩ := (wellFormed.labels label isLabel).body
  refine Option.eq_none_iff_forall_ne_some.mpr fun image replaced => ?_
  cases given : substitution.lookup label.body with
  | some value =>
    obtain ⟨ty, hasTy⟩ := typable _ _ given
    rw [hasTy.isBody_eq_false wellFormed present] at isBody
    cases isBody
  | none =>
    obtain ⟨clone, -, ⟨here, -⟩ | ⟨index, here, -⟩⟩ :=
      exists_clone_of_lookup wellFormed planned given replaced
    · rw [here] at present
      cases present
      cases isBody
    · rw [here] at present
      cases present
      cases isBody

section Images

variable (wellFormed : program.WellFormed) {names : List Name}
  (planned : program.Clones [newName] names clones) {later : Substitution.State}
  (sound : Substitution.Sound (program.replacements substitution clones)
    (program.table.internAll (clones.flatMap Clone.nodes)).2 later)
  {copies : List Label} (labels : later.program.labels = program.labels ++ copies)
  (defines : List.Forall₂ (Substitution.Defines
    ((program.replacements substitution clones).Maps later.rebuilt))
    (definitions entry newName signature clones) copies)

include sound labels defines

/-- The clones are there, with the signatures of their sources. -/
theorem exists_find?_clone {clone : Clone} (member : clone ∈ clones) :
    ∃ label, later.program.find? clone.fresh = some label ∧
      label.signature = clone.source.signature := by
  have isPlanned : clone.definition ∈ definitions entry newName signature clones :=
    List.mem_cons_of_mem _ (List.mem_map_of_mem member)
  obtain ⟨label, isCopy, define⟩ := Results.exists_right_of_mem defines isPlanned
  have isLabel : label ∈ later.program.labels := labels ▸ List.mem_append_right _ isCopy
  have found := find?_of_mem sound.wellFormed.names isLabel
  rw [define.name] at found
  exact ⟨label, found, define.signature⟩

include wellFormed planned

/-- The closures and parameters of a clone have the types of those of its source. -/
theorem hasTy_of_clone (hasTy : program.HasTy handle ty) (notGiven : substitution.lookup handle = none)
    (replaced : (program.replacements substitution clones).lookup handle = some image) :
    later.program.HasTy image ty := by
  obtain ⟨clone, member, renamed⟩ := exists_clone_of_lookup wellFormed planned notGiven replaced
  obtain ⟨label, found, signed⟩ := exists_find?_clone sound labels defines member
  have foundSource := planned.found clone member
  rcases renamed with ⟨present, imagePresent⟩ | ⟨index, present, imagePresent⟩
  · have typed := HasTy.abstraction present foundSource
    rw [hasTy.unique typed, ← signed]
    exact .abstraction (sound.growth imagePresent) found
  · cases hasTy with
    | parameter here foundAgain atIndex =>
      rw [present] at here
      cases here
      rw [foundSource] at foundAgain
      cases foundAgain
      exact .parameter (sound.growth imagePresent) found (signed ▸ atIndex)
    | abstraction here | primitive here | quote here | cast here =>
      rw [present] at here
      cases here

variable (agree : ∀ key value, substitution.lookup key = some value →
  ∃ ty, program.HasTy key ty ∧ later.program.HasTy value ty)

include agree

/-- Images have the types of their originals. -/
theorem hasTy_image (hasTy : program.HasTy handle ty)
    (maps : (program.replacements substitution clones).Maps later.rebuilt handle image) :
    later.program.HasTy image ty := by
  have growth := program.table.extends_internAll (clones.flatMap Clone.nodes)
  induction handle using Nat.strongRecOn generalizing image ty with
  | ind handle ih =>
    rcases maps with replaced | ⟨-, member⟩
    · cases given : substitution.lookup handle with
      | none => exact hasTy_of_clone wellFormed planned sound labels defines hasTy given replaced
      | some value =>
        rw [replacements, List.lookup_append, given] at replaced
        cases replaced
        obtain ⟨_, keyTy, valueTy⟩ := agree _ _ given
        exact hasTy.unique keyTy ▸ valueTy
    · obtain ⟨node, present⟩ := hasTy.exists_get?
      cases sound.rebuilt handle image member with
      | kept =>
        refine hasTy.grow (sound.growth.trans growth) fun name label found => ?_
        exact ⟨label, find?_of_labels_append labels found, rfl⟩
      | rebuilt presentAgain imagePresent parts =>
        rw [growth present] at presentAgain
        cases presentAgain
        apply hasTy.of_matches present imagePresent parts
        intro child isChild childImage childTy childMaps childHasTy
        exact ih child (wellFormed.table.child_lt present isChild) childHasTy childMaps

/-- The image of a well-typed body that is not replaced is a well-typed body. -/
theorem exists_bodyTyped_image (bodyTyped : program.BodyTyped node)
    (present : program.table.get? handle = some node)
    (unreplaced : (program.replacements substitution clones).lookup handle = none)
    (maps : (program.replacements substitution clones).Maps later.rebuilt handle image) :
    ∃ imageNode, later.program.table.get? image = some imageNode ∧
      later.program.BodyTyped imageNode := by
  have growth := program.table.extends_internAll (clones.flatMap Clone.nodes)
  rcases maps with replaced | ⟨-, member⟩
  · rw [unreplaced] at replaced
    cases replaced
  · cases sound.rebuilt handle image member with
    | kept presentAgain atomic =>
      rw [growth present] at presentAgain
      cases presentAgain
      cases bodyTyped <;> cases atomic
    | rebuilt presentAgain imagePresent parts =>
      rw [growth present] at presentAgain
      cases presentAgain
      refine ⟨_, imagePresent, bodyTyped.of_matches parts ?_⟩
      intro child childImage childTy childMaps childHasTy
      exact hasTy_image wellFormed planned sound labels defines agree childHasTy childMaps

/-- All labels of the specialized program are well typed. -/
theorem typed_of_agree (typed : program.Typed) (found : program.find? name = some entry) :
    later.program.Typed := by
  have growth := sound.growth.trans (program.table.extends_internAll (clones.flatMap Clone.nodes))
  intro label member
  rw [labels, List.mem_append] at member
  rcases member with isOld | isCopy
  · obtain ⟨body, present, bodyTyped⟩ := typed label isOld
    refine ⟨body, growth present, bodyTyped.grow growth fun name label found => ?_⟩
    exact ⟨label, find?_of_labels_append labels found, rfl⟩
  · obtain ⟨definition, isPlanned, define⟩ := Results.exists_left_of_mem defines isCopy
    obtain ⟨source, isLabel, sameBody⟩ := exists_label_of_mem_definitions found planned isPlanned
    obtain ⟨body, present, bodyTyped⟩ := typed source isLabel
    have unreplaced := lookup_body_of_hasTy wellFormed planned (fun key value given =>
      (agree key value given).imp fun _ => And.left) isLabel
    have maps := define.body
    rw [sameBody] at maps
    exact exists_bodyTyped_image wellFormed planned sound labels defines agree bodyTyped present
      unreplaced maps

end Images

/-- Specializing a label of a well-typed program succeeds if all that is replaced has a type, and the
result is well typed if every replacement has the type of what it replaces. -/
theorem specialize_typeCheck (wellFormed : program.WellFormed) (checked : program.typeCheck = .ok ())
    (found : program.find? name = some entry) (fresh : newName ∉ program.names)
    (inRange : ∀ key value, substitution.lookup key = some value → value < program.size)
    (typable : ∀ key value, substitution.lookup key = some value →
      ∃ ty, (program.typeOf continuation key).run' [] = .ok ty) (signature : Signature) :
    ∃ specialized, program.specialize name newName signature substitution = .ok specialized ∧
      ((∀ key value, substitution.lookup key = some value →
        (specialized.typeOf continuation value).run' [] =
          (program.typeOf continuation key).run' []) → specialized.typeCheck = .ok ()) := by
  have typed := (typeCheck_eq_ok_iff wellFormed).mp checked
  have faultless := (typed.valid wellFormed).faultless wellFormed
  have typableKeys (key value : Handle) (given : substitution.lookup key = some value) :
      ∃ ty, program.HasTy key ty := by
    obtain ⟨ty, inferred⟩ := typable key value given
    exact ⟨ty, (typeOf_eq_ok_iff wellFormed).mp inferred⟩
  obtain ⟨scope, hasScope, encloses⟩ := exists_scope wellFormed faultless found
  obtain ⟨clones, success, planned⟩ := exists_planClones program [newName] encloses.known
  obtain ⟨copies, later, specializes, sound, labels, defines⟩ :=
    exists_specialize_of_planned wellFormed hasScope success planned found fresh
      (fun _ _ => lt_size_of_replacements inRange clones)
      (fun _ => lookup_body_of_hasTy wellFormed planned typableKeys) signature
  refine ⟨later.program, specializes, fun same => ?_⟩
  rw [typeCheck_eq_ok_iff sound.wellFormed]
  refine typed_of_agree wellFormed planned sound labels defines (fun key value given => ?_) typed found
  obtain ⟨ty, inferred⟩ := typable key value given
  have inferredValue := (same key value given).trans inferred
  exact ⟨ty, (typeOf_eq_ok_iff wellFormed).mp inferred,
    (typeOf_eq_ok_iff sound.wellFormed).mp inferredValue⟩

/-- The helper of the factorial, specialized to the number and the return continuation with which the
factorial calls it. The parameters of the new label have no types before it is there. -/
theorem specialize_typeCheck_factorial :
    let prepared := (Samples.tailFactorialWithReturn.toOption.getD {}).prepare "help_d"
      [.passed 0, .passed 1]
    let program := prepared.2
    let label := fun name => (program.find? name).getD default
    let substitution : Substitution :=
      (label "help").parameters.zip (prepared.1 ++ (label "fac").parameters)
    program.WellFormed ∧ program.typeCheck = .ok () ∧ "help_d" ∉ program.names ∧
    substitution.map (·.1) = (label "help").parameters ∧
    (∀ value ∈ prepared.1, ((program.typeOf "help" value).run' []).isOk = false) ∧
    ∃ specialized, program.specialize "help" "help_d" [.int, .int] substitution = .ok specialized ∧
      (∀ value ∈ prepared.1, (specialized.typeOf "help" value).run' [] = .ok .int) ∧
      specialized.typeCheck = .ok () := by
  intro prepared program label substitution
  obtain ⟨wellFormed, checked, found, fresh, keys, untyped, inRange, typable⟩ :
      program.WellFormed ∧ program.typeCheck = .ok () ∧
      program.find? "help" = some (label "help") ∧ "help_d" ∉ program.names ∧
      substitution.map (·.1) = (label "help").parameters ∧
      (∀ value ∈ prepared.1, ((program.typeOf "help" value).run' []).isOk = false) ∧
      substitution.InRange program.size ∧
      ∀ pair ∈ substitution, ((program.typeOf "help" pair.1).run' []).isOk := by decide +kernel
  obtain ⟨specialized, success, typed, same⟩ : ∃ specialized,
      program.specialize "help" "help_d" [.int, .int] substitution = .ok specialized ∧
      (∀ value ∈ prepared.1, (specialized.typeOf "help" value).run' [] = .ok .int) ∧
      ∀ pair ∈ substitution, (specialized.typeOf "help" pair.2).run' [] =
        (program.typeOf "help" pair.1).run' [] :=
    ⟨(program.specialize "help" "help_d" [.int, .int] substitution).toOption.getD {},
      by decide +kernel⟩
  have typableKeys (key value : Handle) (given : substitution.lookup key = some value) :
      ∃ ty, (program.typeOf "help" key).run' [] = .ok ty := by
    have isOk := typable (key, value) (Results.mem_of_lookup given)
    cases inferred : (program.typeOf "help" key).run' [] with
    | ok ty => exact ⟨ty, rfl⟩
    | error fault =>
      rw [inferred] at isOk
      cases isOk
  obtain ⟨_, successAgain, keeps⟩ := specialize_typeCheck wellFormed checked found fresh
    (fun key value given => inRange (key, value) (Results.mem_of_lookup given)) typableKeys [.int, .int]
  rw [success] at successAgain
  cases successAgain
  exact ⟨wellFormed, checked, fresh, keys, untyped, specialized, success, typed,
    keeps fun key value given => same (key, value) (Results.mem_of_lookup given)⟩

end CpsGraph.Program
