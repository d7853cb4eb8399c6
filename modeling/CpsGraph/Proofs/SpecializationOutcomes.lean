import CpsGraph.Proofs.SpecializedPrograms

/-! # How specialization ends

Specializing a label of any well-formed program, with any replacements that are nodes of it, ends in
one of five ways. It fails if the program does not pass validation, if there is no such label, if the
new name is in use, or if a body is replaced by a node that is none. Otherwise it adds the new label
and one clone for each label of the scope, and changes nothing else. The names of clones are fresh, so
they are never in the way.
-/

namespace CpsGraph

namespace Substitution

variable {substitution : Substitution} {base : Table} {state : State}

/-- Every replacement is one of `size` nodes. -/
def InRange (substitution : Substitution) (size : Nat) : Prop := ∀ pair ∈ substitution, pair.2 < size

instance (substitution : Substitution) (size : Nat) : Decidable (substitution.InRange size) :=
  inferInstanceAs (Decidable (∀ pair ∈ substitution, pair.2 < size))

/-- A label is defined as planned, with the image of the planned body, and is not external. -/
structure DefinesInternal (Image : Handle → Handle → Prop) (definition : Definition) (label : Label) :
    Prop extends Defines Image definition label where
  internal : label.external = false

section Defining

variable (targets : ∀ handle image, substitution.lookup handle = some image → image < base.size)
  (wellFormed : base.WellFormed)

include targets wellFormed

/-- Defining a label under a substitution succeeds, or its name is in use, or the image of the body is
no body. -/
theorem Sound.defineFrom_run (sound : Sound substitution base state) {definition : Definition}
    (inRange : definition.body < base.size) :
    (∃ label later,
      (substitution.defineFrom definition.name definition.signature definition.body).run state =
        .ok ((), later) ∧ Sound substitution base later ∧ Continues state later ∧
      later.program.labels = state.program.labels ++ [label] ∧
      DefinesInternal (substitution.Maps later.rebuilt) definition label) ∨
    ∃ fault, (substitution.defineFrom definition.name definition.signature definition.body).run state =
        .error fault ∧ (definition.name ∈ state.program.names ∧
          fault = .duplicateLabel definition.name ∨ ∃ kind, fault = .notABody definition.name kind) := by
  obtain ⟨image, middle, ran, soundMiddle, toMiddle, labelsMiddle, maps⟩ :=
    succeeds_apply targets wellFormed inRange state sound trivial
  obtain ⟨node, present⟩ := Table.exists_get?_of_lt (soundMiddle.lt_size targets maps)
  cases defined : middle.program.define definition.name definition.signature image false with
  | ok grown =>
    obtain ⟨-, label, table, registered, rfl⟩ := Program.define_eq_ok defined
    obtain ⟨growth, -, -, named, signed, rfl, internal⟩ :=
      soundMiddle.wellFormed.table.register registered
    refine .inl ⟨label, { middle with program := _ }, ?_,
      soundMiddle.grow growth (soundMiddle.wellFormed.define defined),
      toMiddle.trans ⟨growth, List.Subset.refl _⟩, ?_, ⟨named, signed, maps⟩, internal⟩
    · rw [defineFrom, StateT.run_bind, ran]
      change ((liftM (middle.program.define _ _ _ _) : RebuildM Program).run middle >>= _) = _
      rw [defined]
      rfl
    · rw [labelsMiddle]
  | error fault =>
    refine .inr ⟨fault, ?_, ?_⟩
    · rw [defineFrom, StateT.run_bind, ran]
      change ((liftM (middle.program.define _ _ _ _) : RebuildM Program).run middle >>= _) = _
      rw [defined]
      rfl
    · rcases Program.define_eq_error present defined with ⟨known, rfl⟩ | rfl
      · rw [Program.names, labelsMiddle] at known
        exact .inl ⟨known, rfl⟩
      · exact .inr ⟨_, rfl⟩

/-- Defining labels with different new names succeeds, or the image of one of the bodies is none. -/
theorem Sound.defineAll_run (sound : Sound substitution base state) {definitions : List Definition}
    (distinct : (state.program.names ++ definitions.map (·.name)).Nodup)
    (inRange : ∀ definition ∈ definitions, definition.body < base.size) :
    (∃ labels later, (definitions.forM fun definition => substitution.defineFrom definition.name
        definition.signature definition.body).run state = .ok ((), later) ∧
      Sound substitution base later ∧ Continues state later ∧
      later.program.labels = state.program.labels ++ labels ∧
      List.Forall₂ (DefinesInternal (substitution.Maps later.rebuilt)) definitions labels) ∨
    ∃ name kind, (definitions.forM fun definition => substitution.defineFrom definition.name
        definition.signature definition.body).run state = .error (.notABody name kind) := by
  induction definitions generalizing state with
  | nil => exact .inl ⟨[], state, rfl, sound, .refl state, (List.append_nil _).symm, .nil⟩
  | cons definition definitions ih =>
    have fresh : definition.name ∉ state.program.names := fun known =>
      (List.nodup_append.mp distinct).2.2 _ known _ List.mem_cons_self rfl
    have run_cons : ((definition :: definitions).forM fun definition =>
        substitution.defineFrom definition.name definition.signature definition.body).run state =
          (substitution.defineFrom definition.name definition.signature definition.body).run state >>=
            fun (_, middle) => (definitions.forM fun definition => substitution.defineFrom
              definition.name definition.signature definition.body).run middle := rfl
    rw [run_cons]
    rcases sound.defineFrom_run targets wellFormed (inRange definition List.mem_cons_self) with
      ⟨label, middle, ran, soundMiddle, toMiddle, labelsMiddle, defines⟩ |
        ⟨fault, failed, ⟨known, -⟩ | ⟨kind, rfl⟩⟩
    · have namesMiddle : middle.program.names = state.program.names ++ [definition.name] := by
        rw [Program.names, labelsMiddle, List.map_append, List.map_singleton, defines.name]
        rfl
      rw [ran]
      rcases ih soundMiddle (by rwa [namesMiddle, List.append_assoc]) fun other member =>
          inRange other (List.mem_cons_of_mem _ member) with
        ⟨labels, later, ranRest, soundLater, toLater, labelsLater, definesRest⟩ | failed
      · refine .inl ⟨label :: labels, later, ranRest, soundLater, toMiddle.trans toLater, ?_,
          .cons ⟨⟨defines.name, defines.signature, defines.body.mono toLater.rebuilt⟩,
            defines.internal⟩ definesRest⟩
        rw [labelsLater, labelsMiddle, List.append_assoc]
        rfl
      · exact .inr failed
    · exact absurd known fresh
    · rw [failed]
      exact .inr ⟨_, _, rfl⟩

end Defining

end Substitution

namespace Program

variable {program specialized : Program} {name newName : Name} {entry : Label} {signature : Signature}
  {substitution : Substitution} {clones : List Clone}

/-- The continuations of a scope are labels. -/
theorem Resolved.exists_scope (resolved : program.Resolved) (wellFormed : program.WellFormed)
    (found : program.find? name = some entry) :
    ∃ scope, program.scope name = .ok scope ∧ ∀ other ∈ scope.continuations, other ∈ program.names := by
  obtain ⟨order, walk, success⟩ := exists_scopeWalk wellFormed resolved found
  refine ⟨_, success, fun other inside => ?_⟩
  obtain ⟨handle, visited, named⟩ := List.mem_filterMap.mp (List.mem_eraseDups.mp inside)
  obtain ⟨edges, success⟩ := resolved handle (walk.reached handle (List.mem_filter.mp visited).1)
  obtain ⟨node, present, leads⟩ := successors_eq_ok_iff.mp success
  rw [continuationName?, present] at named
  cases leads with
  | continuation found =>
    cases named
    exact mem_names_iff.mpr ⟨_, found⟩
  | _ => cases named

/-- A scope cannot be found if the program does not pass validation or has no such label. -/
theorem scope_eq_error (wellFormed : program.WellFormed) {fault : GraphError}
    (failure : program.scope name = .error fault) : program.validate = .error fault ∨
      program.validate = .ok () ∧ name ∉ program.names ∧ fault = .unboundName name := by
  cases validated : program.validate with
  | error other =>
    rw [scope, uses, validate_eq_error_iff.mp validated] at failure
    cases failure
    exact .inl rfl
  | ok =>
    have resolved := (validate_eq_ok_iff wellFormed).mp validated
    cases found : program.find? name with
    | some entry =>
      obtain ⟨scope, success, -⟩ := resolved.exists_scope wellFormed found
      rw [success] at failure
      cases failure
    | none =>
      have unknown : name ∉ program.names := by simp [mem_names_iff, found]
      obtain ⟨uses, used, -⟩ := resolved.exists_uses wellFormed
      rw [scope, used, resolve, found] at failure
      cases failure
      exact .inr ⟨rfl, unknown, rfl⟩

/-- What specialization adds to a program: a label with the new name, and one clone for each label of
the scope. -/
structure ExtendedBy (program specialized : Program) (newName : Name) (signature : Signature)
    (continuations : List Name) : Prop where
  wellFormed : specialized.WellFormed
  growth : specialized.table.Extends program.table
  labels : ∃ new clones, specialized.labels = program.labels ++ new :: clones ∧
    new.name = newName ∧ new.signature = signature ∧ new.external = false ∧
    List.Forall₂ (fun name clone => ∃ original, program.find? name = some original ∧
      clone.signature = original.signature ∧ clone.external = false) continuations clones

theorem ExtendedBy.find?_old {continuations : List Name}
    (extended : program.ExtendedBy specialized newName signature continuations) {label : Label}
    (found : program.find? name = some label) : specialized.find? name = some label := by
  obtain ⟨new, clones, labels, -⟩ := extended.labels
  exact find?_of_labels_append labels found

section Replacing

variable (targets : ∀ handle image, substitution.lookup handle = some image → image < program.size)

include targets

/-- All replacements that specialization makes are nodes. -/
theorem lt_size_of_replacements (clones : List Clone) {handle image : Handle}
    (replaced : (program.replacements substitution clones).lookup handle = some image) :
    image < (program.table.internAll (clones.flatMap Clone.nodes)).2.size := by
  rw [replacements, List.lookup_append] at replaced
  cases given : substitution.lookup handle with
  | some replacement =>
    rw [given] at replaced
    cases replaced
    exact Nat.lt_of_lt_of_le (targets _ _ given) (Table.extends_internAll _ _).size_le
  | none =>
    rw [given, Option.none_or] at replaced
    obtain ⟨clone, -, node, -, present⟩ :=
      Results.related_of_lookup_zip (Clone.renames_internAll program.table clones) replaced
    exact Table.lt_size_of_get? present

variable (wellFormed : program.WellFormed) (found : program.find? name = some entry)
  (fresh : newName ∉ program.names) {continuations : List Name}
  (planned : program.Clones [newName] continuations clones)

include wellFormed found fresh planned

/-- Defining the new label and the clones succeeds, or one of their bodies is replaced by a node that
is none. -/
theorem defineAll_cases (signature : Signature) :
    (∃ later, ((definitions entry newName signature clones).forM fun definition =>
        (program.replacements substitution clones).defineFrom definition.name definition.signature
          definition.body).run { program := { program with
            table := (program.table.internAll (clones.flatMap Clone.nodes)).2 } } =
              .ok ((), later) ∧
      program.ExtendedBy later.program newName signature continuations) ∨
    ∃ name kind, ((definitions entry newName signature clones).forM fun definition =>
        (program.replacements substitution clones).defineFrom definition.name definition.signature
          definition.body).run { program := { program with
            table := (program.table.internAll (clones.flatMap Clone.nodes)).2 } } =
              .error (.notABody name kind) := by
  have growth := program.table.extends_internAll (clones.flatMap Clone.nodes)
  have closed := wellFormed_internAll_nodes wellFormed clones
  have sound := sound_internAll_nodes wellFormed (program.replacements substitution clones) clones
  have bodies : ∀ definition ∈ definitions entry newName signature clones,
      definition.body < (program.table.internAll (clones.flatMap Clone.nodes)).2.size := by
    intro definition member
    obtain ⟨label, isLabel, sameBody⟩ := exists_label_of_mem_definitions found planned member
    obtain ⟨node, present, -⟩ := (wellFormed.labels label isLabel).body
    rw [sameBody]
    exact Table.lt_size_of_get? (growth present)
  rcases sound.defineAll_run (fun _ _ => lt_size_of_replacements targets clones) closed
      (nodup_definitions wellFormed fresh planned signature) bodies with
    ⟨labels, later, ran, soundLater, -, labelsLater, defines⟩ | failed
  · refine .inl ⟨later, ran, soundLater.wellFormed, soundLater.growth.trans growth, ?_⟩
    rcases defines with _ | ⟨defined, defines⟩
    rename_i new copies
    refine ⟨new, copies, labelsLater, defined.name, defined.signature, defined.internal, ?_⟩
    rw [← planned.sources, List.forall₂_map_left_iff]
    rw [List.forall₂_map_left_iff] at defines
    refine ((List.forall₂_and_left _ _).mpr ⟨planned.found, defines⟩).imp fun clone copy both => ?_
    exact ⟨clone.source, both.1, both.2.signature, both.2.internal⟩
  · exact .inr failed

end Replacing

/-- How specializing a label ends. Only the replacements that count have to be nodes. -/
theorem specialize_cases_of_targets (wellFormed : program.WellFormed)
    (targets : ∀ handle image, substitution.lookup handle = some image → image < program.size)
    (name newName : Name) (signature : Signature) :
    (∃ scope specialized, program.scope name = .ok scope ∧
      program.specialize name newName signature substitution = .ok specialized ∧
      program.ExtendedBy specialized newName signature scope.continuations) ∨
    ∃ fault, program.specialize name newName signature substitution = .error fault ∧
      (program.validate = .error fault ∨ program.validate = .ok () ∧
        (name ∉ program.names ∧ fault = .unboundName name ∨
          name ∈ program.names ∧ newName ∈ program.names ∧ fault = .duplicateLabel newName ∨
          name ∈ program.names ∧ newName ∉ program.names ∧
            ∃ other kind, fault = .notABody other kind)) := by
  cases hasScope : program.scope name with
  | error fault =>
    refine .inr ⟨fault, ?_, (scope_eq_error wellFormed hasScope).imp_right (And.imp_right .inl)⟩
    rw [specialize, specializeReport, hasScope]
    rfl
  | ok scope =>
    obtain ⟨uses, entry, used, found, -⟩ := scope_eq_ok hasScope
    have validated := validate_of_uses used
    have known := mem_names_iff.mpr ⟨entry, found⟩
    by_cases taken : newName ∈ program.names
    · refine .inr ⟨.duplicateLabel newName, ?_, .inr ⟨validated, .inr (.inl ⟨known, taken, rfl⟩)⟩⟩
      rw [specialize, specializeReport, hasScope, resolve_eq_ok_iff.mpr found]
      simp only [bind, Except.bind, contains_iff.mpr taken]
      rfl
    · have resolved := (validate_eq_ok_iff wellFormed).mp validated
      obtain ⟨_, hasScopeAgain, labels⟩ := resolved.exists_scope wellFormed found
      rw [hasScope] at hasScopeAgain
      cases hasScopeAgain
      obtain ⟨clones, planned, isPlan⟩ := exists_planClones program [newName] labels
      rcases defineAll_cases targets wellFormed found taken isPlan signature with
        ⟨later, ran, extended⟩ | ⟨other, kind, failed⟩
      · refine .inl ⟨scope, later.program, rfl, ?_, extended⟩
        rw [specialize_eq_run hasScope found taken planned, ran]
        rfl
      · refine .inr ⟨.notABody other kind, ?_, .inr ⟨validated, .inr (.inr ⟨known, taken, _, _, rfl⟩)⟩⟩
        rw [specialize_eq_run hasScope found taken planned, failed]
        rfl

/-- How specializing a label ends. -/
theorem specialize_cases (wellFormed : program.WellFormed) (inRange : substitution.InRange program.size)
    (name newName : Name) (signature : Signature) :
    (∃ scope specialized, program.scope name = .ok scope ∧
      program.specialize name newName signature substitution = .ok specialized ∧
      program.ExtendedBy specialized newName signature scope.continuations) ∨
    ∃ fault, program.specialize name newName signature substitution = .error fault ∧
      (program.validate = .error fault ∨ program.validate = .ok () ∧
        (name ∉ program.names ∧ fault = .unboundName name ∨
          name ∈ program.names ∧ newName ∈ program.names ∧ fault = .duplicateLabel newName ∨
          name ∈ program.names ∧ newName ∉ program.names ∧
            ∃ other kind, fault = .notABody other kind)) :=
  specialize_cases_of_targets wellFormed
    (fun _ _ replaced => inRange _ (Results.mem_of_lookup replaced)) name newName signature

end Program

end CpsGraph
