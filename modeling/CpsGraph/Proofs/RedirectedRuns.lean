import CpsGraph.Proofs.RedirectedCode
import CpsGraph.Proofs.RunPaths
import CpsGraph.Samples

/-! # Runs after specialization and redirection

Specializing a label at fixed arguments and redirecting its calls preserves what a program does, if
the label is only ever called directly and always with the fixed arguments. Each step keeps the two
runs side by side, so they end alike: with corresponding arguments, with the same error, or not at all.
-/

namespace CpsGraph

/-- Two runs end alike: neither ends, both halt with corresponding arguments, or both fail with the
same error up to names of labels. -/
inductive EndsAlike {Mode : Type} (Names : Name → Name → Prop) (linkages : Mode → Linkage) :
    Option (Except EvalError Halt) → Option (Except EvalError Halt) → Prop
  | never : EndsAlike Names linkages none none
  | halt {halt image : Halt} (corresponds : halt.Corresponds linkages image) :
      EndsAlike Names linkages (some (.ok halt)) (some (.ok image))
  | fail {error image : EvalError} (renamed : error.Renamed Names image) :
      EndsAlike Names linkages (some (.error error)) (some (.error image))

/-- Related outcomes are seen alike. -/
theorem Outcome.endsAlike {Mode : Type} {Names : Name → Name → Prop} {linkages : Mode → Linkage}
    {first second : Except EvalError Halt}
    (outcome : Outcome (.renamed Names) (Halt.Corresponds linkages) first second)
    (limit : Option UInt64) :
    EndsAlike Names linkages (Program.observed limit first) (Program.observed limit second) := by
  cases outcome with
  | @ok halt image corresponds =>
    rcases Nat.lt_or_ge halt.steps Program.stepCeiling with counted | uncounted
    · rw [Program.observed_ok limit counted, Program.observed_ok limit (corresponds.steps ▸ counted)]
      exact .halt corresponds
    · cases limit with
      | some limit => exact .halt corresponds
      | none =>
        simp only [Program.observed, Program.counted?, corresponds.steps,
          if_neg (Nat.not_lt_of_le uncounted)]
        exact .never
  | @fail error _ renamed =>
    cases renamed with
    | same nameless =>
      rcases Program.observed_cases limit (.error error) with seen | ⟨hidden, -⟩
      · rw [seen]
        exact .fail (.same nameless)
      · rw [hidden]
        exact .never
    | unboundParameter names index => cases limit <;> exact .fail (.unboundParameter names index)
    | argumentCount names expected actual =>
      cases limit <;> exact .fail (.argumentCount names expected actual)
  | stuck stuck => cases stuck

namespace Program

namespace Pipeline

variable {program specialized redirected : Program} {entry new : Label} {fixing : Fixing}
  {continuations : List Name} {clones : List Clone} {Image : Handle → Handle → Prop} {side : Side}
  {config image : Configuration}
  (pipeline : Pipeline program specialized redirected entry new fixing continuations clones Image)

include pipeline

/-- Labels whose bodies go together take a step together. A call of the entry has been redirected,
and other bodies have been kept. -/
theorem step_body {label middle : Label} {node middleNode : Node}
    (linked : Linked (program.sideLinkages entry.name new.name fixing.plan clones) side config.env
      image.env)
    (foundLabel : program.find? config.name = some label)
    (foundMiddle : specialized.find? image.name = some middle)
    (present : program.table.get? label.body = some node)
    (middlePresent : specialized.table.get? middle.body = some middleNode)
    (parts : node.Matches (program.SideImage entry continuations Image side) middleNode) :
    Outcome (.renamed (program.CopiesName entry.name clones))
      (program.SideBySide entry.name new.name fixing.plan clones) (program.step config)
      (redirected.step image) := by
  have isLabel := mem_of_find? foundLabel
  have direct := pipeline.calls.direct label isLabel node present
  obtain ⟨copy, foundCopy, -, redirects⟩ := pipeline.moved.labels _ middle foundMiddle
  generalize atCopy : copy.body = body at redirects
  cases redirects with
  | kept other =>
    have noCall (arguments : List Handle) : node ≠ .call entry.abstraction arguments := by
      rintro rfl
      cases parts with
      | call atCallee =>
        rw [(pipeline.abstraction_iff atCallee).mp rfl] at middlePresent
        exact other _ middlePresent
    have code : node.Matches (program.SideCode entry continuations Image side) middleNode :=
      parts.imp fun child _ member related => ⟨related, direct child (Node.mem_besides noCall member)⟩
    have copyPresent : redirected.table.get? copy.body = some middleNode := by
      rw [atCopy]
      exact pipeline.moved.growth middlePresent
    obtain ⟨_, presentAgain, validBody⟩ := pipeline.valid label isLabel
    rw [present] at presentAgain
    cases presentAgain
    exact (step_corresponds pipeline.wellFormed.table pipeline.moved.wellFormed.table pipeline.enters
      (pipeline.mirrors side) linked foundLabel foundCopy present copyPresent code
      validBody.isBody).imp fun _ _ => .inl
  | @replaced _ images selected presentCall selects imagePresent =>
    rw [middlePresent] at presentCall
    cases presentCall
    cases parts with
    | @call callee _ arguments _ atCallee atArguments =>
      have atEntry := (pipeline.abstraction_iff atCallee).mpr rfl
      subst atEntry
      have count := pipeline.counts label isLabel arguments present
      have code : List.Forall₂ (program.SideCode entry continuations Image side) arguments images := by
        rw [Node.besides, if_pos rfl] at direct
        exact ((List.forall₂_and_left _ _).mpr ⟨direct, atArguments⟩).imp fun _ _ both => both.symm
      rw [Fixing.selectArguments_positions (atArguments.length_eq.symm.trans
        (count.trans pipeline.parameters))] at selects
      cases selects
      rw [← atCopy] at imagePresent
      rw [step_eq_jumpTo pipeline.wellFormed.table foundLabel present,
        step_eq_jumpTo pipeline.moved.wellFormed.table foundCopy imagePresent]
      exact pipeline.jumpTo_call linked code count
        (pipeline.calls.fixed label isLabel arguments (callArguments?_eq_some_iff.mpr present))

/-- Inside of the scope, a label and its copy take a step together. -/
theorem step_inside {label : Label} {definition : Definition}
    (linked : Linked (program.sideLinkages entry.name new.name fixing.plan clones) .inside config.env
      image.env)
    (foundLabel : program.find? config.name = some label)
    (isPlanned : definition ∈
      definitions entry new.name (fixing.remaining entry.signature) clones)
    (named : image.name = definition.name) (sameBody : definition.body = label.body) :
    Outcome (.renamed (program.CopiesName entry.name clones))
      (program.SideBySide entry.name new.name fixing.plan clones) (program.step config)
      (redirected.step image) := by
  obtain ⟨middle, node, middleNode, foundMiddle, -, present, middlePresent, parts⟩ :=
    pipeline.built.exists_find? isPlanned
  rw [sameBody] at present
  rw [← named] at foundMiddle
  exact pipeline.step_body linked foundLabel foundMiddle present middlePresent parts

/-- Outside of the scope, a label takes a step with itself. -/
theorem step_outside
    (linked : Linked (program.sideLinkages entry.name new.name fixing.plan clones) .outside config.env
      image.env)
    (outer : program.Outer entry.name continuations config.name) (same : image.name = config.name) :
    Outcome (.renamed (program.CopiesName entry.name clones))
      (program.SideBySide entry.name new.name fixing.plan clones) (program.step config)
      (redirected.step image) := by
  obtain ⟨known, differs, outside⟩ := outer
  obtain ⟨label, foundLabel⟩ := mem_names_iff.mp known
  have isLabel := mem_of_find? foundLabel
  rw [← name_of_find? foundLabel] at differs outside
  have notInside : ¬ (label.name = entry.name ∨ label.name ∈ continuations) :=
    not_or.mpr ⟨differs, outside⟩
  obtain ⟨node, present, validBody⟩ := pipeline.valid label isLabel
  have itself : node.Matches (fun child image => program.Expression child ∧ image = child) node :=
    validBody.matches_self fun _ expression => ⟨expression, rfl⟩
  have foundMiddle : specialized.find? image.name = some label := by
    rw [same]
    exact pipeline.built.find?_old foundLabel
  refine pipeline.step_body linked foundLabel foundMiddle present (pipeline.built.growth present)
    (itself.imp fun child childImage member ⟨expression, same⟩ => ⟨same, expression, ?_, ?_⟩)
  · intro name inScope mentions
    exact notInside (pipeline.encloses.mentions label isLabel name inScope
      (mentions.of_child pipeline.wellFormed.table present member))
  · intro part inside index isParameter
    exact notInside (pipeline.encloses.uses label isLabel part
      (Table.mem_parts_of_child pipeline.wellFormed.table present member inside) index isParameter)

/-- A step keeps configurations side by side. -/
theorem step_sideBySide
    (alongside : program.SideBySide entry.name new.name fixing.plan clones config image) :
    Outcome (.renamed (program.CopiesName entry.name clones))
      (program.SideBySide entry.name new.name fixing.plan clones) (program.step config)
      (redirected.step image) := by
  rcases alongside with ⟨side, entered⟩ | ⟨atEntry, atNew, linked⟩
  · cases side with
    | outside =>
      obtain ⟨outer, same⟩ := entered.closes
      rw [pipeline.planned.sources] at outer
      exact pipeline.step_outside entered.linked outer same
    | inside =>
      obtain ⟨clone, member, atSource, atFresh⟩ := entered.closes
      exact pipeline.step_inside entered.linked (atSource ▸ pipeline.planned.found clone member)
        (List.mem_cons_of_mem _ (List.mem_map_of_mem member)) atFresh.symm rfl
  · exact pipeline.step_inside linked (atEntry ▸ pipeline.found) List.mem_cons_self atNew rfl

/-- Runs side by side have corresponding outcomes. -/
theorem runFor_sideBySide {halts : List Name}
    (outside : ∀ halt ∈ halts, program.Outer entry.name continuations halt)
    (alongside : program.SideBySide entry.name new.name fixing.plan clones config image)
    (remaining steps : Nat) :
    Outcome (.renamed (program.CopiesName entry.name clones))
      (Halt.Corresponds (program.sideLinkages entry.name new.name fixing.plan clones))
      (program.runFor halts remaining steps config)
      (redirected.runFor halts remaining steps image) := by
  have closes (side : Side) (name image : Name)
      (closes : (program.sideLinkages entry.name new.name fixing.plan clones side).Closes name image) :
      image = name ∨ ∃ clone ∈ clones, clone.source.name = name ∧ clone.fresh = image := by
    cases side with
    | inside => exact .inr closes
    | outside => exact .inl closes.2
  refine runFor_related program redirected
    (program.SideBySide entry.name new.name fixing.plan clones) (Outcome _ (Halt.Corresponds _))
    ?_ ?_ ?_ ?_ alongside remaining steps
  · intro left right alongside _
    have outcome := pipeline.step_sideBySide alongside
    generalize program.step left = next at outcome
    generalize redirected.step right = nextImage at outcome
    cases outcome with
    | ok related => exact .both related
    | fail fails => exact .bothFail (.fail fails)
    | stuck stuck => cases stuck
  · intro left right alongside
    exact alongside.mem_halts_iff pipeline.planned pipeline.fresh closes outside
  · intro left right steps alongside stops
    obtain ⟨side, same, entered⟩ := alongside.exists_entered pipeline.planned pipeline.fresh closes
      outside (.inl stops)
    exact .ok (entered.halt same steps)
  · exact fun steps => .fail (.same rfl)

/-- Runs of an outer label with outer arguments have corresponding outcomes. -/
theorem runWithin_sideBySide {start : Name} {arguments : List Value} {halts : List Name}
    (outer : program.Outer entry.name continuations start)
    (within : ∀ value ∈ arguments, value.Within (program.Outer entry.name continuations)
      (program.Outer entry.name continuations))
    (outside : ∀ halt ∈ halts, program.Outer entry.name continuations halt) (limit : Nat) :
    Outcome (.renamed (program.CopiesName entry.name clones))
      (Halt.Corresponds (program.sideLinkages entry.name new.name fixing.plan clones))
      (program.runWithin start arguments halts limit)
      (redirected.runWithin start arguments halts limit) := by
  have closes : (program.sideLinkages entry.name new.name fixing.plan clones .outside).Closes start
      start := ⟨pipeline.planned.sources ▸ outer, rfl⟩
  have corresponds : List.Forall₂
      (Corresponds (program.sideLinkages entry.name new.name fixing.plan clones)) arguments
      arguments :=
    List.forall₂_same.mpr fun value member =>
      corresponds_outer pipeline.planned pipeline.fresh (within value member)
  rw [runWithin, runWithin, start_eq_enter, start_eq_enter]
  refine (enter_corresponds linked_nil closes (pipeline.enters _ _ _ closes) corresponds).bind
    fun config image entered => ?_
  exact pipeline.runFor_sideBySide outside (.inl entered) limit 0

end Pipeline

/-- Specializing a label and redirecting its calls preserves what a program does. If the label is
only called directly, and always with the fixed arguments, then both transformations succeed, and
every run from outside of its scope ends alike before and after, whatever the step limit: it does not
end, it halts at the same label after as many steps with corresponding arguments, or it fails with
the same error up to the names of clones. -/
theorem specialize_redirectCalls_endsAlike {program : Program} {name newName : Name} {entry : Label}
    {fixing : Fixing} {substitution : Substitution} (wellFormed : program.WellFormed)
    (typeChecks : program.typeCheck = .ok ()) (found : program.find? name = some entry)
    (fresh : newName ∉ program.names)
    (replaces : program.Replaces entry newName fixing.plan substitution)
    (calls : program.CallsFixed entry fixing) :
    ∃ scope clones specialized redirected, program.scope name = .ok scope ∧
      program.planClones [newName] scope.continuations = .ok clones ∧
      program.specialize name newName (fixing.remaining entry.signature) substitution =
        .ok specialized ∧
      specialized.redirectCalls name newName fixing.positions = .ok redirected ∧
      ∀ start arguments halts limit, program.Outer name scope.continuations start →
        (∀ value ∈ arguments, value.Within (program.Outer name scope.continuations)
          (program.Outer name scope.continuations)) →
        (∀ halt ∈ halts, program.Outer name scope.continuations halt) →
        EndsAlike (program.CopiesName name clones)
          (program.sideLinkages name newName fixing.plan clones)
          (program.run start arguments halts limit) (redirected.run start arguments halts limit) := by
  have typed := typed_of_typeCheck typeChecks
  have valid := typed.valid wellFormed
  have parameters : entry.arity = fixing.length := by
    rw [← replaces.length_plan wellFormed found, Fixing.plan, Fixing.length_planFrom]
  have counts (label : Label) (member : label ∈ program.labels) (arguments : List Handle) :=
    @Typed.length_arguments program label name wellFormed typed entry found member arguments
  obtain ⟨scope, clones, specialized, Image, hasScope, plannedOk, success, encloses, planned, built⟩ :=
    exists_specialize wellFormed valid found fresh replaces (fixing.remaining entry.signature)
  have named := name_of_find? found
  subst named
  obtain ⟨new, foundNew, -⟩ := built.hosts.new
  have newNamed := name_of_find? foundNew
  subst newNamed
  have specializedValid := built.valid wellFormed planned
    (fun _ _ => Fixing.lt_length_of_plan parameters) found valid
  have inRange (index : Nat) (member : index ∈ fixing.positions) : index < entry.arity :=
    parameters ▸ Fixing.lt_length_of_mem_positions member
  obtain ⟨redirected, redirectedOk, moved⟩ := exists_redirectCalls built.wellFormed specializedValid
    (built.find?_old found) foundNew inRange
    (built.length_arguments wellFormed planned encloses found counts)
  have pipeline : Pipeline program specialized redirected entry new fixing scope.continuations clones
      Image := ⟨wellFormed, valid, found, fresh, parameters, counts, calls, encloses, planned, built,
        foundNew, moved⟩
  refine ⟨scope, clones, specialized, redirected, hasScope, plannedOk, success, redirectedOk, ?_⟩
  intro start arguments halts limit outer within outside
  rw [run_eq_observed, run_eq_observed]
  exact (pipeline.runWithin_sideBySide outer within outside (allowance limit)).endsAlike limit

/-- The power, specialized at the exponent with which it is called. Its loop refers to the parameters
of the caller, and both calls are redirected. -/
theorem specialize_redirectCalls_endsAlike_power :
    let fixing : Fixing := [none, some (.int 3)]
    let prepared := (Samples.powerWithReturn.toOption.getD {}).prepare "pow3" fixing.plan
    let program := prepared.2
    let entry := (program.find? "pow").getD default
    let substitution := entry.parameters.zip prepared.1
    let specialized := (program.specialize "pow" "pow3" (fixing.remaining entry.signature)
      substitution).toOption.getD {}
    let redirected := (specialized.redirectCalls "pow" "pow3" fixing.positions).toOption.getD {}
    let arguments := [.literal (.int 2), .literal (.int 5), .closure "ret" []]
    program.WellFormed ∧ program.typeCheck = .ok () ∧
    program.Replaces entry "pow3" fixing.plan substitution ∧ program.CallsFixed entry fixing ∧
    program.run "f" arguments ["ret"] none = some (.ok ⟨"ret", [.literal (.int 8)], 10⟩) ∧
    ∃ clones, clones.map (·.fresh) = ["else_1", "body_1", "head_1", "next_1"] ∧
      ∀ limit, EndsAlike (program.CopiesName "pow" clones)
        (program.sideLinkages "pow" "pow3" fixing.plan clones)
        (program.run "f" arguments ["ret"] limit) (redirected.run "f" arguments ["ret"] limit) := by
  intro fixing prepared program entry substitution specialized redirected arguments
  obtain ⟨wellFormed, checked, found, fresh, replaces, calls, ran, startKnown, retKnown, scopeNames,
      cloneNames⟩ :
      program.WellFormed ∧ program.typeCheck = .ok () ∧ program.find? "pow" = some entry ∧
      "pow3" ∉ program.names ∧ program.Replaces entry "pow3" fixing.plan substitution ∧
      program.CallsFixed entry fixing ∧
      program.runWithin "f" arguments ["ret"] stepCeiling =
        .ok ⟨"ret", [.literal (.int 8)], 10⟩ ∧ "f" ∈ program.names ∧ "ret" ∈ program.names ∧
      (program.scope "pow").toOption.map (·.continuations) = some ["else", "body", "head", "next"] ∧
      (program.planClones ["pow3"] ["else", "body", "head", "next"]).toOption.map
        (·.map (·.fresh)) = some ["else_1", "body_1", "head_1", "next_1"] := by decide +kernel
  have ran : program.run "f" arguments ["ret"] none = some (.ok ⟨"ret", [.literal (.int 8)], 10⟩) :=
    run_eq_halt_iff.mpr ⟨ran, by decide⟩
  obtain ⟨scope, clones, copied, moved, hasScope, planned, success, redirectedOk, alike⟩ :=
    specialize_redirectCalls_endsAlike wellFormed checked found fresh replaces calls
  have isCopied : specialized = copied := congrArg (fun result => result.toOption.getD {}) success
  rw [← isCopied] at redirectedOk
  have isMoved : redirected = moved := congrArg (fun result => result.toOption.getD {}) redirectedOk
  rw [hasScope] at scopeNames
  have continuations : scope.continuations = ["else", "body", "head", "next"] :=
    Option.some.inj scopeNames
  rw [continuations] at planned alike
  rw [planned] at cloneNames
  have start : program.Outer "pow" ["else", "body", "head", "next"] "f" :=
    ⟨startKnown, by decide, by decide⟩
  have ret : program.Outer "pow" ["else", "body", "head", "next"] "ret" :=
    ⟨retKnown, by decide, by decide⟩
  rw [isMoved]
  refine ⟨wellFormed, checked, replaces, calls, ran, clones, Option.some.inj cloneNames, fun limit =>
    alike "f" arguments ["ret"] limit start ?_ (List.forall_mem_singleton.mpr ret)⟩
  simp only [arguments, List.forall_mem_cons, List.not_mem_nil, IsEmpty.forall_iff, implies_true,
    and_true]
  exact ⟨.literal _, .literal _, .closure ret nofun nofun⟩

end Program

end CpsGraph
