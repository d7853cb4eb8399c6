import CpsGraph.Proofs.FixedArguments
import CpsGraph.Proofs.RedirectedCalls
import CpsGraph.Proofs.ValidCopies
import CpsGraph.Proofs.Within

/-! # Running redirected code

A label is specialized at fixed arguments, and then all its calls are redirected to the new label. If
the label is only ever called directly, and always with the fixed arguments, then redirected code
does what the original does. Both are outside of the scope or inside of it at the same time: inside,
copied code runs in environments that have the parameters of the new label and of the clones.
Outside code does not mention the scope, but it can hold closures of it and call the label.
-/

namespace CpsGraph

/-- Two errors are the same up to names of labels. -/
inductive EvalError.Renamed (Names : Name → Name → Prop) : EvalError → EvalError → Prop
  | same {error : EvalError} (nameless : error.isNameless = true) : Renamed Names error error
  | unboundParameter {name image : Name} (names : Names name image) (index : Nat) :
      Renamed Names (.unboundParameter name index) (.unboundParameter image index)
  | argumentCount {name image : Name} (names : Names name image) (expected actual : Nat) :
      Renamed Names (.argumentCount name expected actual) (.argumentCount image expected actual)

/-- Failures are the same up to names of labels, and no step is stuck. -/
def Tolerance.renamed (Names : Name → Name → Prop) : Tolerance where
  Fails := EvalError.Renamed Names
  Stuck _ := False
  fails_of_stuck := nofun
  fails_same _ := .same

/-- The code that both runs are in: outside of the scope of a label, or inside of it. -/
inductive Side where
  | outside
  | inside

/-- The children of a body, except for the callee of a call of the given closure. -/
def Node.besides (closure : Handle) : Node → List Handle
  | .call callee arguments => if callee = closure then arguments else callee :: arguments
  | node => node.children

theorem Node.mem_besides {closure child : Handle} {node : Node}
    (other : ∀ arguments, node ≠ .call closure arguments) (member : child ∈ node.children) :
    child ∈ node.besides closure := by
  cases node with
  | call callee arguments =>
    have differs : callee ≠ closure := by
      rintro rfl
      exact other arguments rfl
    rwa [besides, if_neg differs]
  | _ => exact member

namespace Program

/-- A label other than the entry and outside of its scope. -/
def Outer (program : Program) (entry : Name) (continuations : List Name) (name : Name) : Prop :=
  name ∈ program.names ∧ name ≠ entry ∧ name ∉ continuations

/-- What goes together on either side. Outside, both are at the same label. The parameters that were
last bound in the scope go with those of the clones on both sides. -/
def sideLinkages (program : Program) (entry newName : Name) (plan : List Argument)
    (clones : List Clone) : Side → Linkage
  | .inside => program.copyLinkage entry newName plan clones
  | .outside =>
    { program.copyLinkage entry newName plan clones with
      Closes := fun name image => program.Outer entry (clones.map (·.source.name)) name ∧ image = name
      Holds := fun _ _ => False
      Present := fun _ => False }

/-- At each fixed parameter the literal is passed, or the parameter itself is handed on. -/
def PassesFixed (program : Program) (entry : Label) (fixing : Fixing) (arguments : List Handle) :
    Prop :=
  ∀ index < fixing.length, ∀ literal ∈ fixing[index]?.join, ∀ argument ∈ arguments[index]?,
    program.table.get? argument = some (.quote literal) ∨
      program.table.get? argument = some (.parameter entry.name index)

instance (program : Program) (entry : Label) (fixing : Fixing) (arguments : List Handle) :
    Decidable (program.PassesFixed entry fixing arguments) :=
  inferInstanceAs (Decidable (∀ index < fixing.length, ∀ literal ∈ _, ∀ argument ∈ _, _ ∨ _))

/-- The closure of a label is only the callee of calls, and they pass the fixed arguments. -/
structure CallsFixed (program : Program) (entry : Label) (fixing : Fixing) : Prop where
  direct : ∀ label ∈ program.labels, ∀ node ∈ program.table.get? label.body,
    ∀ child ∈ node.besides entry.abstraction, entry.abstraction ∉ program.table.parts child
  fixed : ∀ label ∈ program.labels,
    ∀ arguments ∈ program.callArguments? entry.abstraction label.body,
      program.PassesFixed entry fixing arguments

instance (program : Program) (entry : Label) (fixing : Fixing) :
    Decidable (program.CallsFixed entry fixing) :=
  decidable_of_iff (_ ∧ _) ⟨fun ⟨direct, fixed⟩ => ⟨direct, fixed⟩,
    fun ⟨direct, fixed⟩ => ⟨direct, fixed⟩⟩

section Linkages

variable {program : Program} {entry : Label} {newName : Name} {plan : List Argument}
  {clones : List Clone} {continuations : List Name} {left right : Env} {side : Side}

/-- Environments that are linked on some side are linked outside. -/
theorem linked_outside
    (linked : Linked (program.sideLinkages entry.name newName plan clones) side left right) :
    Linked (program.sideLinkages entry.name newName plan clones) .outside left right := by
  cases side with
  | outside => exact linked
  | inside =>
    exact ⟨linked.links, linked.strict, nofun, nofun, nofun, linked.leftUnbound, linked.rightUnbound⟩

theorem linked_nil :
    Linked (program.sideLinkages entry.name newName plan clones) .outside [] [] :=
  ⟨nofun, nofun, nofun, nofun, nofun, nofun, nofun⟩

variable (planned : program.Clones [newName] continuations clones) (fresh : newName ∉ program.names)

include planned fresh

/-- Places that go together and of which one is of an outer label are the same. -/
theorem CopiesPlace.eq_of_outer {place target : Place}
    (copies : program.CopiesPlace entry.name newName plan clones place target)
    (outer : program.Outer entry.name continuations place.1 ∨
      program.Outer entry.name continuations target.1) : target = place := by
  cases copies with
  | argument =>
    rcases outer with outer | outer
    · exact absurd rfl outer.2.1
    · exact absurd outer.1 fresh
  | label copies index =>
    cases copies with
    | clone member =>
      rcases outer with outer | outer
      · refine absurd ?_ outer.2.2
        rw [← planned.sources]
        exact List.mem_map_of_mem member
      · exact absurd outer.1 (planned.unknown _ member)
    | outer => rfl

/-- Values that only know outer labels correspond to themselves. -/
theorem corresponds_outer {value : Value} (within : value.Within
      (program.Outer entry.name continuations) (program.Outer entry.name continuations)) :
    Corresponds (program.sideLinkages entry.name newName plan clones) value value := by
  induction within with
  | literal literal => exact .literal literal
  | @closure continuation env named bound values ih =>
    have outer {place : Place} {value : Value} (atPlace : env.at? place = some value) :
        program.Outer entry.name continuations place.1 := by
      obtain ⟨arguments, atName, -⟩ := Option.bind_eq_some_iff.mp atPlace
      exact bound _ (Results.mem_of_lookup atName)
    refine .closure Side.outside ⟨planned.sources ▸ named, rfl⟩ ?_ ?_ ?_ nofun nofun nofun nofun nofun
      nofun
    · intro place target copies image atTarget
      have same := CopiesPlace.eq_of_outer planned fresh copies (.inr (outer atTarget))
      exact ⟨image, same ▸ atTarget⟩
    · intro place target copies value image atPlace atTarget
      have same := CopiesPlace.eq_of_outer planned fresh copies (.inl (outer atPlace))
      rw [same, atPlace] at atTarget
      cases atTarget
      obtain ⟨arguments, atName, atIndex⟩ := Option.bind_eq_some_iff.mp atPlace
      exact ih _ (Results.mem_of_lookup atName) value (List.mem_of_getElem? atIndex)
    · intro place target copies value atPlace
      have same := CopiesPlace.eq_of_outer planned fresh copies (.inl (outer atPlace))
      exact ⟨value, same ▸ atPlace⟩

end Linkages

/-- Handles that go together on either side: inside they are images, and outside the same expression,
in which neither the parameters of the entry nor the scope are mentioned. -/
def SideImage (program : Program) (entry : Label) (continuations : List Name)
    (Image : Handle → Handle → Prop) : Side → Handle → Handle → Prop
  | .inside => Image
  | .outside => fun handle image => image = handle ∧ program.Expression handle ∧
      (∀ name ∈ continuations, ¬ program.table.Mentions handle name) ∧
      ∀ part ∈ program.table.parts handle, ∀ index,
        program.table.get? part ≠ some (.parameter entry.name index)

/-- Handles that go together and do not mention the entry itself. -/
def SideCode (program : Program) (entry : Label) (continuations : List Name)
    (Image : Handle → Handle → Prop) (side : Side) (handle image : Handle) : Prop :=
  program.SideImage entry continuations Image side handle image ∧
    entry.abstraction ∉ program.table.parts handle

/-- Two configurations of a program and of what specialization and redirection make of it. -/
abbrev SideBySide (program : Program) (entry newName : Name) (plan : List Argument)
    (clones : List Clone) : Configuration → Configuration → Prop :=
  Alongside (program.sideLinkages entry newName plan clones) .inside entry newName

/-- Redirecting calls keeps all labels and their numbers of parameters. -/
theorem Hosts.redirected {program specialized redirected : Program} {newName : Name} {arity : Nat}
    {clones : List Clone} {old new : Label} {mapping : List Nat}
    (hosts : program.Hosts specialized newName arity clones)
    (moved : specialized.Redirected redirected old new mapping) :
    program.Hosts redirected newName arity clones := by
  have keeps {name : Name} {count : Nat}
      (known : ∃ label, specialized.find? name = some label ∧ label.arity = count) :
      ∃ image, redirected.find? name = some image ∧ image.arity = count := by
    obtain ⟨label, found, rfl⟩ := known
    obtain ⟨image, foundImage, signed, -⟩ := moved.labels name label found
    exact ⟨image, foundImage, congrArg Signature.arity signed⟩
  exact ⟨moved.wellFormed, fun name label found => keeps (hosts.old name label found),
    keeps hosts.new, fun clone member => keeps (hosts.clones clone member)⟩

/-- A label is specialized at fixed arguments, with which it is always called, and then its calls are
redirected to the new label. -/
structure Pipeline (program specialized redirected : Program) (entry new : Label) (fixing : Fixing)
    (continuations : List Name) (clones : List Clone) (Image : Handle → Handle → Prop) : Prop where
  wellFormed : program.WellFormed
  valid : program.Valid
  found : program.find? entry.name = some entry
  fresh : new.name ∉ program.names
  parameters : entry.arity = fixing.length
  counts : ∀ label ∈ program.labels, ∀ arguments,
    program.table.get? label.body = some (.call entry.abstraction arguments) →
      arguments.length = entry.arity
  calls : program.CallsFixed entry fixing
  encloses : program.Encloses entry continuations
  planned : program.Clones [new.name] continuations clones
  built : program.Specialized specialized
    (definitions entry new.name (fixing.remaining entry.signature) clones)
    (Copies entry.name new.name fixing.plan clones) Image
  foundNew : specialized.find? new.name = some new
  moved : specialized.Redirected redirected entry new fixing.positions

namespace Pipeline

variable {program specialized redirected : Program} {entry new : Label} {fixing : Fixing}
  {continuations : List Name} {clones : List Clone} {Image : Handle → Handle → Prop} {side : Side}
  {left right : Env} {handle image : Handle}
  (pipeline : Pipeline program specialized redirected entry new fixing continuations clones Image)

include pipeline

theorem hosts : program.Hosts redirected new.name
    (Signature.arity (fixing.remaining entry.signature)) clones :=
  pipeline.built.hosts.redirected pipeline.moved

theorem growth : redirected.table.Extends program.table :=
  pipeline.moved.growth.trans pipeline.built.growth

theorem mem_names {name : Name} (known : name ∈ program.names) : name ∈ redirected.names := by
  obtain ⟨label, found⟩ := mem_names_iff.mp known
  obtain ⟨image, foundImage, -⟩ := pipeline.hosts.old name label found
  exact mem_names_iff.mpr ⟨image, foundImage⟩

/-- The closure of the entry goes with itself only. -/
theorem abstraction_iff (related : program.SideImage entry continuations Image side handle image) :
    handle = entry.abstraction ↔ image = entry.abstraction := by
  cases side with
  | inside =>
    exact pipeline.built.abstraction_iff pipeline.wellFormed pipeline.planned pipeline.encloses
      pipeline.found related
  | outside => rw [related.1]

theorem expression (related : program.SideImage entry continuations Image side handle image) :
    program.Expression handle := by
  cases side with
  | inside => exact pipeline.built.expression handle image related
  | outside => exact related.2.1

/-- A closure without the closure of the entry is that of another label. -/
theorem ne_entry {name : Name} (present : program.table.get? handle = some (.abstraction name))
    (absent : entry.abstraction ∉ program.table.parts handle) : name ≠ entry.name := by
  rintro rfl
  have registered := pipeline.wellFormed.registered pipeline.found
  rw [← (registered.eq_abstraction_iff pipeline.wellFormed.table).mpr present] at absent
  exact absent (Table.mem_parts_self _ _)

/-- Labels whose closures go together can be entered together. -/
theorem enters (side : Side) (name other : Name)
    (closes : (program.sideLinkages entry.name new.name fixing.plan clones side).Closes name other) :
    (program.sideLinkages entry.name new.name fixing.plan clones side).Enters program redirected
      (.renamed (program.CopiesName entry.name clones)) name other := by
  cases side with
  | inside =>
    obtain ⟨clone, member, rfl, rfl⟩ := closes
    have copies : program.CopiesName entry.name clones clone.source.name clone.fresh := .clone member
    exact copies.enters pipeline.encloses pipeline.planned pipeline.fresh pipeline.hosts
      (.argumentCount copies) (fun _ _ => id) (fun _ _ => id) (fun _ _ => id)
      (fun _ _ => And.left) (fun _ => And.left) nofun nofun
  | outside =>
    obtain ⟨⟨known, differs, outside⟩, rfl⟩ := closes
    have copies : program.CopiesName entry.name clones other other := .outer known differs outside
    exact copies.enters pipeline.encloses pipeline.planned pipeline.fresh pipeline.hosts
      (.argumentCount copies) (fun _ _ => id) (fun _ _ => id) (fun _ _ => id) nofun nofun nofun nofun

/-- Inside of the scope, copied code that does not mention the entry corresponds to the original. -/
theorem mirrors_inside : Mirrors program redirected (.renamed (program.CopiesName entry.name clones))
    (program.sideLinkages entry.name new.name fixing.plan clones) .inside
    (program.SideCode entry continuations Image .inside) := by
  rintro handle image ⟨related, absent⟩
  obtain ⟨node, imageNode, present, imagePresent, copies | parts⟩ :=
    pipeline.built.image handle image related
  · have fails (name image : Name) (index : Nat)
        (copies : program.CopiesName entry.name clones name image) :
        EvalError.Renamed (program.CopiesName entry.name clones) (.unboundParameter name index)
          (.unboundParameter image index) := .unboundParameter copies index
    have linkage : program.LinksCopies entry.name new.name fixing.plan clones
        (program.sideLinkages entry.name new.name fixing.plan clones .inside) :=
      linksCopies_copyLinkage program entry.name new.name fixing.plan clones _ _
    refine ⟨node, imageNode, present, pipeline.moved.growth imagePresent, .inl (copies.agrees
      pipeline.wellFormed pipeline.planned pipeline.hosts
      (fun _ _ => Fixing.lt_length_of_plan pipeline.parameters) linkage fails
      (pipeline.built.expression handle image related) present ?_)⟩
    rintro name rfl known outside
    exact .abstraction .outside known (pipeline.mem_names known)
      ⟨⟨known, pipeline.ne_entry present absent, outside⟩, rfl⟩ fun _ _ => linked_outside
  · refine ⟨node, imageNode, present, pipeline.moved.growth imagePresent, .inr (parts.imp
      fun child childImage member related => ⟨related, fun inside => absent ?_⟩)⟩
    exact Table.mem_parts_of_child pipeline.wellFormed.table present member inside

/-- The children of an outside expression are outside. -/
theorem outside_child {node : Node} {child : Handle}
    (related : program.SideImage entry continuations Image .outside handle image)
    (present : program.table.get? handle = some node) (member : child ∈ node.children) :
    program.SideImage entry continuations Image .outside child child := by
  obtain ⟨-, expression, unmentioned, unused⟩ := related
  refine ⟨rfl, expression.child present member, fun name inScope mentions => ?_, fun part inside => ?_⟩
  · exact unmentioned name inScope (mentions.of_child pipeline.wellFormed.table present member)
  · exact unused part (Table.mem_parts_of_child pipeline.wellFormed.table present member inside)

/-- Outside of the scope, code that does not mention the entry corresponds to itself. -/
theorem mirrors_outside :
    Mirrors program redirected (.renamed (program.CopiesName entry.name clones))
      (program.sideLinkages entry.name new.name fixing.plan clones) .outside
      (program.SideCode entry continuations Image .outside) := by
  rintro handle image ⟨related, absent⟩
  obtain ⟨rfl, expression, unmentioned, unused⟩ := related
  obtain ⟨node, present⟩ := expression.exists_get?
  have outer {name : Name} (mentions : program.table.Mentions image name) :
      name ∉ clones.map (·.source.name) := by
    rw [pipeline.planned.sources]
    exact fun inScope => unmentioned name inScope mentions
  have children {child : Handle} (member : child ∈ node.children) :
      program.SideCode entry continuations Image .outside child child :=
    ⟨pipeline.outside_child ⟨rfl, expression, unmentioned, unused⟩ present member, fun inside =>
      absent (Table.mem_parts_of_child pipeline.wellFormed.table present member inside)⟩
  refine ⟨node, node, present, pipeline.growth present, ?_⟩
  cases node with
  | primitive op operands => exact .inr (.primitive (List.forall₂_same.mpr fun _ => children))
  | cast source ty => exact .inr (.cast (children (List.mem_singleton_self source)))
  | abstraction name =>
    have known := expression.mem_names present
    have differs := pipeline.ne_entry present absent
    exact .inl (.abstraction .outside known (pipeline.mem_names known)
      ⟨⟨known, differs, outer (Table.mentions_abstraction present)⟩, rfl⟩ fun _ _ => id)
  | parameter name index =>
    have other : name ≠ entry.name := by
      rintro rfl
      exact unused image (Table.mem_parts_self _ _) index present
    obtain ⟨label, foundLabel, atIndex⟩ := expression.mem_parameters pipeline.wellFormed present
    have known : ∃ handle, program.parameter name index = .ok handle :=
      ⟨image, parameter_eq_ok_iff.mpr ⟨label, foundLabel, atIndex⟩⟩
    have copies : program.CopiesName entry.name clones name name :=
      .outer (mem_names_iff.mpr ⟨label, foundLabel⟩) other (outer (Table.mentions_parameter present))
    exact .inl (@Node.Agrees.parameter _ _ _ _ _ _ (name, index) (name, index) known
      (copies.exists_parameter pipeline.wellFormed pipeline.planned pipeline.hosts known)
      (.label copies index) (.inr (.unboundParameter copies index)) (.inl (.label copies index)))
  | quote literal => exact .inl (.quote literal)
  | continuation | call | branch => cases expression.isExpression present

theorem mirrors (side : Side) :
    Mirrors program redirected (.renamed (program.CopiesName entry.name clones))
      (program.sideLinkages entry.name new.name fixing.plan clones) side
      (program.SideCode entry continuations Image side) := by
  cases side with
  | inside => exact pipeline.mirrors_inside
  | outside => exact pipeline.mirrors_outside

/-- Entering the entry with all arguments and the new label with those that are passed leads inside. -/
theorem linked_call {values images : List Value}
    (linked : Linked (program.sideLinkages entry.name new.name fixing.plan clones) side left right)
    (fills : Fixing.Fills
      (Corresponds (program.sideLinkages entry.name new.name fixing.plan clones))
      (fun value literal => value = .literal literal) fixing values images) :
    Linked (program.sideLinkages entry.name new.name fixing.plan clones) .inside
      (left.set entry.name values) (right.set new.name images) where
  links := by
    intro place target copies image atTarget
    rw [Env.at?_set] at atTarget ⊢
    cases copies with
    | argument atIndex =>
      obtain ⟨offset, value, found, rfl, atValue, atImage, corresponds⟩ := fills.exists_passed atIndex
      rw [if_pos rfl, Nat.zero_add, atImage] at atTarget
      cases atTarget
      rw [if_pos rfl]
      exact ⟨value, atValue, corresponds⟩
    | label copies index =>
      rw [if_neg (copies.ne_newName pipeline.planned pipeline.fresh)] at atTarget
      rw [if_neg (copies.ne_entry pipeline.encloses pipeline.planned)]
      exact (linked_outside linked).links _ _ (.label copies index) image atTarget
  strict := by
    intro place target copies value atPlace
    rw [Env.at?_set] at atPlace ⊢
    cases copies with
    | argument atIndex =>
      obtain ⟨offset, _, image, rfl, -, atImage, -⟩ := fills.exists_passed atIndex
      rw [if_pos rfl, Nat.zero_add]
      exact ⟨image, atImage⟩
    | label copies index =>
      rw [if_neg (copies.ne_entry pipeline.encloses pipeline.planned)] at atPlace
      rw [if_neg (copies.ne_newName pipeline.planned pipeline.fresh)]
      exact (linked_outside linked).strict _ _ (.label copies index) value atPlace
  recalls := nofun
  holds := by
    rintro place literal ⟨atEntry, atIndex⟩
    obtain ⟨_, atValue, rfl⟩ := fills.exists_fixed atIndex
    rw [Env.at?_set, if_pos atEntry, atValue]
  present := by
    rintro place ⟨atEntry, inPlan⟩
    rw [Fixing.plan, Fixing.length_planFrom, ← fills.length_eq] at inPlan
    rw [Env.at?_set, if_pos atEntry, List.getElem?_eq_getElem inPlan]
    exact ⟨_, rfl⟩
  leftUnbound := nofun
  rightUnbound := nofun

/-- What is passed for a fixed parameter has the value of the literal. -/
theorem value_fixed {index : Nat} {literal : Literal}
    (related : program.SideImage entry continuations Image side handle image)
    (linked : Linked (program.sideLinkages entry.name new.name fixing.plan clones) side left right)
    (atIndex : fixing[index]? = some (some literal))
    (passes : program.table.get? handle = some (.quote literal) ∨
      program.table.get? handle = some (.parameter entry.name index)) :
    program.value left handle = .ok (.literal literal) := by
  rcases passes with present | present
  · exact value_quote pipeline.wellFormed.table present
  · cases side with
    | outside => exact absurd present (related.2.2.2 handle (Table.mem_parts_self _ _) index)
    | inside =>
      have known := (pipeline.expression related).mem_parameters pipeline.wellFormed present
      rw [value_parameter pipeline.wellFormed.table present,
        parameterValue_eq ⟨handle, parameter_eq_ok_iff.mpr known⟩,
        linked.holds (entry.name, index) literal ⟨rfl, Fixing.getElem?_planFrom 0 atIndex⟩]
      rfl

/-- A call of the entry and the redirected call lead to the entry and to the new label. -/
theorem jumpTo_call {arguments images : List Handle} {name other : Name}
    (linked : Linked (program.sideLinkages entry.name new.name fixing.plan clones) side left right)
    (atArguments : List.Forall₂ (program.SideCode entry continuations Image side) arguments images)
    (count : arguments.length = entry.arity)
    (passes : program.PassesFixed entry fixing arguments) :
    Outcome (.renamed (program.CopiesName entry.name clones))
      (program.SideBySide entry.name new.name fixing.plan clones)
      (program.jumpTo left name (.call entry.abstraction arguments))
      (redirected.jumpTo right other (.call new.abstraction (fixing.remaining images))) := by
  have fills : Fixing.Fills (program.SideCode entry continuations Image side)
      (fun handle literal => program.value left handle = .ok (.literal literal)) fixing arguments
      (fixing.remaining images) := by
    refine Fixing.fills_remaining atArguments (count.trans pipeline.parameters) ?_
    intro index literal argument atIndex atArgument
    obtain ⟨image, -, related, -⟩ := Results.exists_right_of_getElem? atArguments atArgument
    have inRange := (List.getElem?_eq_some_iff.mp atIndex).1
    exact pipeline.value_fixed related linked atIndex
      (passes index inRange literal (by rw [atIndex]; rfl) argument atArgument)
  have values : Outcome (.renamed (program.CopiesName entry.name clones)) (Fixing.Fills
      (Corresponds (program.sideLinkages entry.name new.name fixing.plan clones))
      (fun value literal => value = .literal literal) fixing) (arguments.mapM (program.value left))
      ((fixing.remaining images).mapM (redirected.value right)) :=
    fills.mapM (fun _ _ related => value_corresponds pipeline.wellFormed.table
      pipeline.moved.wellFormed.table (pipeline.mirrors side) linked related)
      fun _ literal evaluated => ⟨.literal literal, evaluated, rfl⟩
  obtain ⟨target, foundTarget, sameArity⟩ := pipeline.hosts.new
  have callee : program.value left entry.abstraction = .ok (.closure entry.name left) :=
    (value_abstraction_iff pipeline.wellFormed.table
      (pipeline.wellFormed.registered pipeline.found).abstraction).mpr
        ⟨mem_names_iff.mpr ⟨entry, pipeline.found⟩, rfl⟩
  have calleeImage : redirected.value right new.abstraction = .ok (.closure new.name right) :=
    (value_abstraction_iff pipeline.moved.wellFormed.table (pipeline.moved.growth
      (pipeline.built.wellFormed.registered pipeline.foundNew).abstraction)).mpr
        ⟨mem_names_iff.mpr ⟨target, foundTarget⟩, rfl⟩
  simp only [jumpTo, jumpBy, callee, calleeImage]
  refine values.bind fun values images fills => ?_
  have fits : values.length = entry.arity := fills.length_eq.trans pipeline.parameters.symm
  have imageFits : images.length = target.arity :=
    (fills.length_rest pipeline.parameters).trans sameArity.symm
  change Outcome _ _ (program.enter entry.name left values) (redirected.enter new.name right images)
  rw [enter_eq_ok_iff.mpr ⟨entry, pipeline.found, fits, rfl⟩,
    enter_eq_ok_iff.mpr ⟨target, foundTarget, imageFits, rfl⟩]
  exact .ok (.inr ⟨rfl, rfl, pipeline.linked_call linked fills⟩)

end Pipeline

end Program

end CpsGraph
