import CpsGraph.Proofs.CopiedCode
import CpsGraph.Proofs.RunPaths
import CpsGraph.Proofs.Within
import CpsGraph.Samples

/-! # Runs of a specialized label

Calling a specialized label with the arguments that are left does what calling the original with all
arguments does. The copied code leaves references to the original label as they are, so a run moves
between copied and original code: what copied code passes on has been copied as well, but original
code that is entered from it does not find the parameters of the scope there. Hence the specialized
run may find a parameter unbound, and otherwise the two runs go in lockstep.
-/

namespace CpsGraph

/-- The value of a parameter, given the arguments that are still passed. -/
def Argument.value (rest : List Value) : Argument → Value
  | .fixed literal => .literal literal
  | .passed index => rest[index]?.getD default

/-- The code that a run is in: the original one, or the copy of a specialization. -/
inductive Region where
  | original
  | copied

/-- What goes together when the copy of a specialization runs beside the original. In original code
both sides are the same, but what was bound in the scope may have been bound in the copy on the right.
Copied code is only ever reached from the specialized label, so no other label is bound there. -/
def Program.regionLinkages (program : Program) (entry newName : Name) (plan : List Argument)
    (clones : List Clone) : Region → Linkage
  | .original =>
    { Closes := fun name image => name ∈ program.names ∧ image = name
      Links := fun place target => place.1 ∈ program.names ∧ target = place
      Strict := fun place target => place.1 ∈ program.names ∧ place.1 ≠ entry ∧
        place.1 ∉ clones.map (·.source.name) ∧ target = place
      Recalls := fun place target =>
        program.CopiesPlace entry newName plan clones place target ∧ target.1 ∉ program.names
      Holds := fun _ _ => False
      Present := fun _ => False
      LeftUnbound := fun _ => False
      RightUnbound := fun _ => False }
  | .copied =>
    { program.copyLinkage entry newName plan clones with
      LeftUnbound := fun place => place.1 ∈ program.names ∧ place.1 ≠ entry ∧
        place.1 ∉ clones.map (·.source.name)
      RightUnbound := fun place => place.1 ∈ program.names }

/-- All failures are alike, and a parameter may be unbound on the right. -/
def Tolerance.unbound : Tolerance where
  Fails _ _ := True
  Stuck error := ∃ name index, error = .unboundParameter name index
  fails_of_stuck _ _ _ := trivial
  fails_same _ _ := trivial

namespace Program

section Original

variable {program specialized : Program} {entry : Label} {newName : Name} {plan : List Argument}
  {clones : List Clone} {signature : Signature} {LeafCopies : Node → Node → Prop}
  {Image : Handle → Handle → Prop}

/-- Values that only know labels of the program correspond to themselves. -/
theorem corresponds_self {value : Value}
    (within : value.Within (· ∈ program.names) (· ∈ program.names)) :
    Corresponds (program.regionLinkages entry.name newName plan clones) value value := by
  induction within with
  | literal literal => exact .literal literal
  | @closure continuation env named bound values ih =>
    refine .closure Region.original ⟨named, rfl⟩ ?_ ?_ ?_ ?_ ?_ nofun nofun nofun nofun
    · rintro _ place ⟨-, rfl⟩ image atPlace
      exact ⟨image, atPlace⟩
    · rintro _ place ⟨-, rfl⟩ value image atPlace atPlaceAgain
      rw [atPlace] at atPlaceAgain
      cases atPlaceAgain
      obtain ⟨arguments, atName, atIndex⟩ := Option.bind_eq_some_iff.mp atPlace
      exact ih _ (Results.mem_of_lookup atName) value (List.mem_of_getElem? atIndex)
    · rintro _ place ⟨-, -, -, rfl⟩ value atPlace
      exact ⟨value, atPlace⟩
    · intro place target _ value atPlace unbound
      rw [atPlace] at unbound
      cases unbound
    · intro place target _ value image atPlace unbound
      rw [atPlace] at unbound
      cases unbound

/-- Environments of copied code are linked as those of original code: no label is bound on the
right, and none outside of the scope on the left. -/
theorem linked_original {left right : Env}
    (linked : Linked (program.regionLinkages entry.name newName plan clones) .copied left right) :
    Linked (program.regionLinkages entry.name newName plan clones) .original left right where
  links := by
    rintro _ place ⟨known, rfl⟩ image atTarget
    rw [linked.rightUnbound place known] at atTarget
    cases atTarget
  strict := by
    rintro _ place ⟨known, other, outside, rfl⟩ value atPlace
    rw [linked.leftUnbound place ⟨known, other, outside⟩] at atPlace
    cases atPlace
  recalls := by
    rintro place target ⟨copies, -⟩ value atPlace -
    obtain ⟨image, atTarget⟩ := linked.strict place target copies value atPlace
    obtain ⟨_, atPlaceAgain, corresponds⟩ := linked.links place target copies image atTarget
    rw [atPlace] at atPlaceAgain
    cases atPlaceAgain
    exact ⟨image, atTarget, corresponds⟩
  holds := nofun
  present := nofun
  leftUnbound := nofun
  rightUnbound := nofun

variable (built : program.Specialized specialized (definitions entry newName signature clones)
  (Copies entry.name newName plan clones) Image)

include built

/-- Original code corresponds to itself. -/
theorem mirrors_original (wellFormed : program.WellFormed) :
    Mirrors program specialized .unbound (program.regionLinkages entry.name newName plan clones)
      .original fun handle image => program.Expression handle ∧ image = handle := by
  have all {handles : List Handle} (expressions : ∀ handle ∈ handles, program.Expression handle) :
      List.Forall₂ (fun handle image => program.Expression handle ∧ image = handle) handles handles :=
    List.forall₂_same.mpr fun handle member => ⟨expressions handle member, rfl⟩
  rintro _ handle ⟨expression, rfl⟩
  obtain ⟨node, present⟩ := expression.exists_get?
  refine ⟨node, node, present, built.growth present, ?_⟩
  cases node with
  | primitive op operands =>
    exact .inr (.primitive (all fun operand member => expression.child present member))
  | cast source ty =>
    exact .inr (.cast ⟨expression.child present (List.mem_singleton_self source), rfl⟩)
  | abstraction target =>
    have known := expression.mem_names present
    obtain ⟨label, found⟩ := mem_names_iff.mp known
    exact .inl (.abstraction .original known (mem_names_iff.mpr ⟨label, built.find?_old found⟩)
      ⟨known, rfl⟩ fun _ _ => id)
  | parameter target index =>
    obtain ⟨label, found, atIndex⟩ := expression.mem_parameters wellFormed present
    refine .inl (@Node.Agrees.parameter _ _ _ _ _ _ (target, index) (target, index)
      ⟨handle, parameter_eq_ok_iff.mpr ⟨label, found, atIndex⟩⟩
      ⟨handle, parameter_eq_ok_iff.mpr ⟨label, built.find?_old found, atIndex⟩⟩ ?_ (.inr trivial)
      (.inr ⟨target, index, rfl⟩))
    exact ⟨mem_names_iff.mpr ⟨label, found⟩, rfl⟩
  | quote literal => exact .inl (.quote literal)
  | continuation | call | branch => cases expression.isExpression present

theorem enters_original {name : Name} (known : name ∈ program.names) :
    (program.regionLinkages entry.name newName plan clones .original).Enters program specialized
      .unbound name name where
  labels := by
    obtain ⟨label, found⟩ := mem_names_iff.mp known
    exact ⟨label, label, found, built.find?_old found, rfl⟩
  count _ _ := trivial
  links := by
    rintro _ place ⟨-, rfl⟩
    exact ⟨Iff.rfl, fun _ => rfl⟩
  strict _ _ strict := ⟨strict.1, strict.2.2.2⟩
  recalls _ _ recalls := ⟨Iff.rfl, fun same => recalls.2 (same ▸ known)⟩
  holds := nofun
  present := nofun
  leftUnbound := nofun
  rightUnbound := nofun

end Original

section Lockstep

variable {program specialized : Program} {entry : Label} {newName : Name} {plan : List Argument}
  {clones : List Clone} {continuations : List Name} {signature : Signature}
  {Image : Handle → Handle → Prop} {config image : Configuration}
  (wellFormed : program.WellFormed) (valid : program.Valid)
  (found : program.find? entry.name = some entry) (fresh : newName ∉ program.names)
  (encloses : program.Encloses entry continuations)
  (planned : program.Clones [newName] continuations clones)
  (built : program.Specialized specialized (definitions entry newName signature clones)
    (Copies entry.name newName plan clones) Image)
  (inRange : ∀ index target : Nat, plan[index]? = some (.passed target) → target < signature.arity)

include wellFormed fresh encloses planned built inRange

omit fresh encloses in
/-- Copied code corresponds to the original. -/
theorem mirrors_copied : Mirrors program specialized .unbound
    (program.regionLinkages entry.name newName plan clones) .copied Image := by
  intro handle image related
  obtain ⟨node, imageNode, present, imagePresent, copies | parts⟩ := built.image handle image related
  · have fails (name image : Name) (index : Nat)
        (_ : program.CopiesName entry.name clones name image) : Tolerance.unbound.Fails
          (.unboundParameter name index) (.unboundParameter image index) := trivial
    have linkage : program.LinksCopies entry.name newName plan clones
        (program.regionLinkages entry.name newName plan clones .copied) :=
      linksCopies_copyLinkage program entry.name newName plan clones _ _
    refine ⟨node, imageNode, present, imagePresent, .inl (copies.agrees wellFormed planned
      built.hosts inRange linkage fails (built.expression handle image related) present ?_)⟩
    rintro name rfl known outside
    obtain ⟨label, found⟩ := mem_names_iff.mp known
    exact .abstraction .original known (mem_names_iff.mpr ⟨label, built.find?_old found⟩)
      ⟨known, rfl⟩ fun _ _ => linked_original
  · exact ⟨node, imageNode, present, imagePresent, .inr parts⟩

omit wellFormed inRange in
/-- Labels whose closures go together can be entered together. -/
theorem enters_region (region : Region) (name other : Name)
    (closes : (program.regionLinkages entry.name newName plan clones region).Closes name other) :
    (program.regionLinkages entry.name newName plan clones region).Enters program specialized
      .unbound name other := by
  cases region with
  | original =>
    obtain ⟨known, rfl⟩ := closes
    exact enters_original built known
  | copied =>
    obtain ⟨clone, member, rfl, rfl⟩ := closes
    have copies : program.CopiesName entry.name clones clone.source.name clone.fresh := .clone member
    refine copies.enters encloses planned fresh built.hosts (fun _ _ => trivial)
      (fun _ _ => id) (fun _ _ => id) (fun _ _ => id) (fun _ _ => And.left) (fun _ => And.left) ?_ ?_
    · rintro place ⟨-, -, outside⟩ same
      exact outside (same ▸ List.mem_map_of_mem member)
    · exact fun place known same => planned.unknown clone member (same ▸ known)

/-- Two configurations of a program and its specialization in lockstep. -/
abbrev InLockstep (program : Program) (entry newName : Name) (plan : List Argument)
    (clones : List Clone) : Configuration → Configuration → Prop :=
  Alongside (program.regionLinkages entry newName plan clones) .copied entry newName

include valid found in
/-- A step keeps configurations in lockstep, unless a parameter is unbound on the right. -/
theorem step_inLockstep
    (lockstep : program.InLockstep entry.name newName plan clones config image) :
    Outcome .unbound (program.InLockstep entry.name newName plan clones) (program.step config)
      (specialized.step image) := by
  have enters := enters_region fresh encloses planned built
  have copied {label : Label} (member : label ∈ program.labels)
      (foundLabel : program.find? config.name = some label) {definition : Definition}
      (isPlanned : definition ∈ definitions entry newName signature clones)
      (named : image.name = definition.name) (sameBody : definition.body = label.body)
      (linked : Linked (program.regionLinkages entry.name newName plan clones) .copied config.env
        image.env) :
      Outcome .unbound (program.InLockstep entry.name newName plan clones) (program.step config)
        (specialized.step image) := by
    obtain ⟨copy, node, imageNode, foundCopy, -, present, imagePresent, parts⟩ :=
      built.exists_find? isPlanned
    obtain ⟨body, bodyPresent, validBody⟩ := valid label member
    rw [sameBody, bodyPresent] at present
    cases present
    rw [← named] at foundCopy
    refine (step_corresponds wellFormed.table built.wellFormed.table enters
      (mirrors_copied wellFormed planned built inRange) linked foundLabel foundCopy bodyPresent
      imagePresent parts validBody.isBody).imp fun _ _ => .inl
  rcases lockstep with ⟨region, entered⟩ | ⟨atEntry, atNew, linked⟩
  · cases region with
    | original =>
      obtain ⟨known, sameName⟩ := entered.closes
      obtain ⟨label, foundLabel⟩ := mem_names_iff.mp known
      obtain ⟨node, present, validBody⟩ := valid label (mem_of_find? foundLabel)
      have foundImage : specialized.find? image.name = some label := by
        rw [sameName]
        exact built.find?_old foundLabel
      refine (step_corresponds wellFormed.table built.wellFormed.table enters
        (mirrors_original built wellFormed) entered.linked foundLabel foundImage present
        (built.growth present) (validBody.matches_self ?_) validBody.isBody).imp fun _ _ => .inl
      exact fun child expression => ⟨expression, rfl⟩
    | copied =>
      obtain ⟨clone, member, atSource, atFresh⟩ := entered.closes
      have foundSource := planned.found clone member
      exact copied (mem_of_find? foundSource) (atSource ▸ foundSource)
        (List.mem_cons_of_mem _ (List.mem_map_of_mem member)) atFresh.symm rfl entered.linked
  · exact copied (mem_of_find? found) (atEntry ▸ found) List.mem_cons_self atNew rfl linked

omit wellFormed built in
/-- The specialized label and the original are entered with linked environments. -/
theorem linked_start {rest : List Value} (count : rest.length = signature.arity)
    (within : ∀ value ∈ rest, value.Within (· ∈ program.names) (· ∈ program.names)) :
    Linked (program.regionLinkages entry.name newName plan clones) .copied
      (Env.set [] entry.name (plan.map (·.value rest))) (Env.set [] newName rest) where
  links := by
    intro place target links image atTarget
    rw [Env.at?_set] at atTarget ⊢
    cases links with
    | argument atIndex =>
      rw [if_pos rfl] at atTarget ⊢
      refine ⟨image, ?_, corresponds_self (within image (List.mem_of_getElem? atTarget))⟩
      rw [List.getElem?_map, atIndex, Option.map_some, Argument.value, atTarget, Option.getD_some]
    | label copies index =>
      rw [if_neg (copies.ne_newName planned fresh)] at atTarget
      cases atTarget
  strict := by
    intro place target strict value atPlace
    rw [Env.at?_set] at atPlace ⊢
    cases strict with
    | argument atIndex =>
      rw [if_pos rfl]
      exact ⟨_, List.getElem?_eq_getElem (count ▸ inRange _ _ atIndex)⟩
    | label copies index =>
      rw [if_neg (copies.ne_entry encloses planned)] at atPlace
      cases atPlace
  recalls := nofun
  holds := by
    rintro place literal ⟨atEntry, atIndex⟩
    rw [Env.at?_set, if_pos atEntry, List.getElem?_map, atIndex]
    rfl
  present := by
    rintro place ⟨atEntry, inPlan⟩
    rw [Env.at?_set, if_pos atEntry, List.getElem?_map, List.getElem?_eq_getElem inPlan]
    exact ⟨_, rfl⟩
  leftUnbound := by
    rintro place ⟨-, other, -⟩
    rw [Env.at?_set, if_neg other]
    rfl
  rightUnbound := by
    intro place known
    rw [Env.at?_set, if_neg fun same : place.1 = newName => fresh (same ▸ known)]
    rfl

/-- The outcomes of runs in lockstep: if the right one halts so does the left one, and if the left
one halts then so does the right one, unless a parameter is unbound there. -/
structure HaltsTogether (linkages : Region → Linkage) (outcome image : Except EvalError Halt) :
    Prop where
  backward : ∀ halt, image = .ok halt →
    ∃ original, outcome = .ok original ∧ original.Corresponds linkages halt
  forward : ∀ original, outcome = .ok original →
    (∃ halt, image = .ok halt ∧ original.Corresponds linkages halt) ∨
      ∃ name index, image = .error (.unboundParameter name index)

include valid found in
/-- Runs in lockstep halt together. -/
theorem runFor_inLockstep {halts : List Name}
    (outside : ∀ halt ∈ halts, halt ∈ program.names ∧ halt ≠ entry.name ∧ halt ∉ continuations)
    (lockstep : program.InLockstep entry.name newName plan clones config image)
    (remaining steps : Nat) :
    HaltsTogether (program.regionLinkages entry.name newName plan clones)
      (program.runFor halts remaining steps config)
      (specialized.runFor halts remaining steps image) := by
  have closes (region : Region) (name image : Name)
      (closes : (program.regionLinkages entry.name newName plan clones region).Closes name image) :
      image = name ∨ ∃ clone ∈ clones, clone.source.name = name ∧ clone.fresh = image := by
    cases region with
    | original => exact .inl closes.2
    | copied => exact .inr closes
  refine runFor_related program specialized (program.InLockstep entry.name newName plan clones)
    (HaltsTogether _) ?_ ?_ ?_ ?_ lockstep remaining steps
  · intro left right lockstep _
    have outcome := step_inLockstep wellFormed valid found fresh encloses planned built inRange
      lockstep
    generalize program.step left = next at outcome
    generalize specialized.step right = nextImage at outcome
    cases outcome with
    | ok related => exact .both related
    | fail => exact .bothFail ⟨nofun, nofun⟩
    | stuck stuck =>
      obtain ⟨name, index, rfl⟩ := stuck
      exact .rightFails fun outcome => ⟨nofun, fun _ _ => .inr ⟨name, index, rfl⟩⟩
  · exact fun left right lockstep => lockstep.mem_halts_iff planned fresh closes outside
  · intro left right steps lockstep stops
    obtain ⟨region, same, entered⟩ := lockstep.exists_entered planned fresh closes outside (.inl stops)
    have corresponds := entered.halt same steps
    exact ⟨fun halt image => ⟨_, rfl, Except.ok.inj image ▸ corresponds⟩,
      fun original outcome => .inl ⟨_, rfl, Except.ok.inj outcome ▸ corresponds⟩⟩
  · exact fun steps => ⟨nofun, nofun⟩

end Lockstep

/-- A label can be specialized only under a new name. -/
theorem not_mem_names_of_specialize {program specialized : Program} {name newName : Name}
    {signature : Signature} {substitution : Substitution}
    (success : program.specialize name newName signature substitution = .ok specialized) :
    newName ∉ program.names := by
  obtain ⟨event, success⟩ := Results.ofSuccess_outcome_eq_ok_iff.mp success
  obtain ⟨scope, -, success⟩ := Results.bind_eq_ok_iff.mp success
  obtain ⟨label, -, success⟩ := Results.bind_eq_ok_iff.mp success
  intro known
  rw [contains_iff.mpr known] at success
  cases success

/-- A specialized label runs like the original. If the run of the specialized label halts, then so
does the run of the original label with the fixed arguments filled in, and conversely, unless the
specialized run finds a parameter unbound. Then both halt at the same label after as many steps,
with arguments that are equal up to the renaming of the scope to its clones. -/
theorem specialize_lockstep {program specialized : Program} {name newName : Name} {entry : Label}
    {signature : Signature} {substitution : Substitution} {plan : List Argument} {scope : Scope}
    (wellFormed : program.WellFormed) (typeChecks : program.typeCheck = .ok ())
    (found : program.find? name = some entry) (hasScope : program.scope name = .ok scope)
    (replaces : program.Replaces entry newName plan substitution)
    (inRange : ∀ target, .passed target ∈ plan → target < signature.arity)
    (success : program.specialize name newName signature substitution = .ok specialized)
    {rest : List Value} (count : rest.length = signature.arity)
    (within : ∀ value ∈ rest, value.Within (· ∈ program.names) (· ∈ program.names))
    {halts : List Name}
    (outside : ∀ halt ∈ halts, halt ∈ program.names ∧ halt ≠ name ∧ halt ∉ scope.continuations)
    (limit : Option UInt64) :
    ∃ clones, program.planClones [newName] scope.continuations = .ok clones ∧
      (∀ halt, specialized.run newName rest halts limit = some (.ok halt) →
        ∃ original, program.run name (plan.map (·.value rest)) halts limit = some (.ok original) ∧
          original.Corresponds (program.regionLinkages name newName plan clones) halt) ∧
      (∀ original, program.run name (plan.map (·.value rest)) halts limit = some (.ok original) →
        (∃ halt, specialized.run newName rest halts limit = some (.ok halt) ∧
          original.Corresponds (program.regionLinkages name newName plan clones) halt) ∨
        ∃ parameter index, specialized.run newName rest halts limit =
          some (.error (.unboundParameter parameter index))) := by
  have valid := (typed_of_typeCheck typeChecks).valid wellFormed
  have fresh := not_mem_names_of_specialize success
  obtain ⟨_, clones, _, Image, hasScopeAgain, plannedOk, successAgain, encloses, planned, built⟩ :=
    exists_specialize wellFormed valid found fresh replaces signature
  rw [hasScope] at hasScopeAgain
  cases hasScopeAgain
  rw [success] at successAgain
  cases successAgain
  have named := name_of_find? found
  subst named
  have inPlan (index target : Nat) (atIndex : plan[index]? = some (.passed target)) :
      target < signature.arity := inRange target (List.mem_of_getElem? atIndex)
  have planCount : (plan.map (·.value rest)).length = entry.arity := by
    rw [List.length_map, replaces.length_plan wellFormed found]
  obtain ⟨new, foundNew, newArity⟩ := built.hosts.new
  have start : program.InLockstep entry.name newName plan clones
      ⟨entry.name, Env.set [] entry.name (plan.map (·.value rest))⟩
      ⟨newName, Env.set [] newName rest⟩ :=
    .inr ⟨rfl, rfl, linked_start fresh encloses planned inPlan count within⟩
  have together := runFor_inLockstep wellFormed valid found fresh encloses planned built inPlan
    outside start (allowance limit) 0
  rw [← runWithin_eq_runFor found planCount,
    ← runWithin_eq_runFor foundNew (count.trans newArity.symm)] at together
  simp only [run_eq_halt_iff]
  refine ⟨clones, plannedOk, ?_, ?_⟩
  · rintro halt ⟨halted, counted⟩
    obtain ⟨original, ran, corresponds⟩ := together.backward halt halted
    exact ⟨original, ⟨ran, corresponds.steps ▸ counted⟩, corresponds⟩
  · rintro original ⟨halted, counted⟩
    rcases together.forward original halted with ⟨halt, ran, corresponds⟩ | ⟨parameter, index, unbound⟩
    · exact .inl ⟨halt, ⟨ran, corresponds.steps ▸ counted⟩, corresponds⟩
    · refine .inr ⟨parameter, index, ?_⟩
      rw [run_eq_observed, unbound]
      cases limit <;> rfl

/-- A helper that multiplies up to five, specialized from the helper of the factorial. After one
round in copied code it goes on in the original helper. -/
theorem specialize_lockstep_factorial :
    let plan : List Argument := [.passed 0, .passed 1, .fixed (.int 5), .passed 2]
    let prepared := (Samples.tailFactorialWithReturn.toOption.getD {}).prepare "help5" plan
    let program := prepared.2
    let entry := (program.find? "help").getD default
    let substitution := entry.parameters.zip prepared.1
    let specialized := (program.specialize "help" "help5" [.int, .int, .fn [.int]]
      substitution).toOption.getD {}
    let rest := [.literal (.int 1), .literal (.int 1), .closure "ret" []]
    let halt : Halt := ⟨"ret", [.literal (.int 120)], 12⟩
    program.WellFormed ∧ program.typeCheck = .ok () ∧
    program.Replaces entry "help5" plan substitution ∧
    specialized.run "help5" rest ["ret"] none = some (.ok halt) ∧
    ∃ clones original, clones.map (·.fresh) = ["else2_1", "then2_1"] ∧
      program.run "help" (plan.map (·.value rest)) ["ret"] none = some (.ok original) ∧
      original.Corresponds (program.regionLinkages "help" "help5" plan clones) halt := by
  intro plan prepared program entry substitution specialized rest halt
  obtain ⟨wellFormed, checked, known, replaces, found, success, ran, scopeNames, cloneNames⟩ :
      program.WellFormed ∧ program.typeCheck = .ok () ∧ "ret" ∈ program.names ∧
      program.Replaces entry "help5" plan substitution ∧ program.find? "help" = some entry ∧
      program.specialize "help" "help5" [.int, .int, .fn [.int]] substitution = .ok specialized ∧
      specialized.runWithin "help5" rest ["ret"] stepCeiling = .ok halt ∧
      (program.scope "help").toOption.map (·.continuations) = some ["else2", "then2"] ∧
      (program.planClones ["help5"] ["else2", "then2"]).toOption.map (·.map (·.fresh)) =
        some ["else2_1", "then2_1"] := by decide +kernel
  obtain ⟨scope, hasScope, continuations⟩ := Option.map_eq_some_iff.mp scopeNames
  have inRange (target : Nat) (member : .passed target ∈ plan) :
      target < Signature.arity [.int, .int, .fn [.int]] := by
    have cases : target = 0 ∨ target = 1 ∨ target = 2 := by simpa [plan] using member
    change target < 3
    omega
  have within : ∀ value ∈ rest, value.Within (· ∈ program.names) (· ∈ program.names) := by
    simp only [rest, List.forall_mem_cons, List.not_mem_nil, IsEmpty.forall_iff, implies_true, and_true]
    exact ⟨.literal _, .literal _, .closure known nofun nofun⟩
  have outside : ∀ halt ∈ ["ret"],
      halt ∈ program.names ∧ halt ≠ "help" ∧ halt ∉ scope.continuations := by
    rw [continuations]
    exact List.forall_mem_singleton.mpr ⟨known, by decide, by decide⟩
  obtain ⟨clones, planned, backward, -⟩ := specialize_lockstep wellFormed checked found
    (Results.toOption_eq_some_iff.mp hasScope) replaces inRange success rfl within outside none
  have ran : specialized.run "help5" rest ["ret"] none = some (.ok halt) :=
    run_eq_halt_iff.mpr ⟨ran, by decide⟩
  obtain ⟨original, ranOriginal, corresponds⟩ := backward halt ran
  rw [continuations] at planned
  rw [planned] at cloneNames
  exact ⟨wellFormed, checked, replaces, ran, clones, original, Option.some.inj cloneNames,
    ranOriginal, corresponds⟩

end Program

end CpsGraph
