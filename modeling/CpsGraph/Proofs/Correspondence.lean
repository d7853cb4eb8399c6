import CpsGraph.Proofs.Outcomes
import CpsGraph.Proofs.Parts

/-! # Corresponding values

Transforming a program replaces labels and parameters, so that the values of two runs are no longer
equal. They correspond if literals are equal and if closures are linked: their labels go together,
and so do their environments, place by place. A place is a parameter of a label. How environments
are linked depends on the code that is executed, so there are several linkages, and a closure on
either side says by which of them it is linked.

Code that corresponds, node by node, leads to outcomes that correspond.
-/

namespace CpsGraph

/-- A parameter of a label: the name and the index. -/
abbrev Place := Name × Nat

/-- The value at a place. -/
def Env.at? (env : Env) (place : Place) : Option Value :=
  (env.get? place.1).bind (·[place.2]?)

theorem Env.at?_set (env : Env) (name : Name) (arguments : List Value) (place : Place) :
    (env.set name arguments).at? place =
      if place.1 = name then arguments[place.2]? else env.at? place := by
  rw [at?, get?_set]
  split_ifs <;> rfl

/-- How two environments go together.

* The closures of two labels go together if they are in `Closes`.
* Two places in `Links` hold corresponding values wherever the right one is bound, and in `Strict`
  also the right one is bound wherever the left one is.
* Of two places in `Recalls`, the first one may be bound on the left only: then the second one holds
  the corresponding value on the right.
* A place in `Holds` has the given constant on the left, and one in `Present` has any value.
* A place in `LeftUnbound` or in `RightUnbound` has no value on that side. -/
structure Linkage where
  Closes : Name → Name → Prop
  Links : Place → Place → Prop
  Strict : Place → Place → Prop
  Recalls : Place → Place → Prop
  Holds : Place → Literal → Prop
  Present : Place → Prop
  LeftUnbound : Place → Prop
  RightUnbound : Place → Prop

variable {Mode : Type} {linkages : Mode → Linkage} {mode : Mode} {left right : Env}

/-- Literals correspond if they are equal, and closures if they are linked. -/
inductive Corresponds (linkages : Mode → Linkage) : Value → Value → Prop
  | literal (literal : Literal) : Corresponds linkages (.literal literal) (.literal literal)
  | closure (mode : Mode) {name other : Name} {left right : Env}
      (closes : (linkages mode).Closes name other)
      (bound : ∀ place target, (linkages mode).Links place target → ∀ image,
        right.at? target = some image → ∃ value, left.at? place = some value)
      (corresponds : ∀ place target, (linkages mode).Links place target → ∀ value image,
        left.at? place = some value → right.at? target = some image →
          Corresponds linkages value image)
      (strict : ∀ place target, (linkages mode).Strict place target → ∀ value,
        left.at? place = some value → ∃ image, right.at? target = some image)
      (recalls : ∀ place target, (linkages mode).Recalls place target → ∀ value,
        left.at? place = some value → right.at? place = none → ∃ image, right.at? target = some image)
      (recalled : ∀ place target, (linkages mode).Recalls place target → ∀ value image,
        left.at? place = some value → right.at? place = none → right.at? target = some image →
          Corresponds linkages value image)
      (holds : ∀ place literal, (linkages mode).Holds place literal →
        left.at? place = some (.literal literal))
      (present : ∀ place, (linkages mode).Present place → ∃ value, left.at? place = some value)
      (leftUnbound : ∀ place, (linkages mode).LeftUnbound place → left.at? place = none)
      (rightUnbound : ∀ place, (linkages mode).RightUnbound place → right.at? place = none) :
      Corresponds linkages (.closure name left) (.closure other right)

/-- Two environments are linked by one of the linkages. -/
structure Linked (linkages : Mode → Linkage) (mode : Mode) (left right : Env) : Prop where
  links : ∀ place target, (linkages mode).Links place target → ∀ image,
    right.at? target = some image →
      ∃ value, left.at? place = some value ∧ Corresponds linkages value image
  strict : ∀ place target, (linkages mode).Strict place target → ∀ value,
    left.at? place = some value → ∃ image, right.at? target = some image
  recalls : ∀ place target, (linkages mode).Recalls place target → ∀ value,
    left.at? place = some value → right.at? place = none →
      ∃ image, right.at? target = some image ∧ Corresponds linkages value image
  holds : ∀ place literal, (linkages mode).Holds place literal →
    left.at? place = some (.literal literal)
  present : ∀ place, (linkages mode).Present place → ∃ value, left.at? place = some value
  leftUnbound : ∀ place, (linkages mode).LeftUnbound place → left.at? place = none
  rightUnbound : ∀ place, (linkages mode).RightUnbound place → right.at? place = none

/-- Closures of labels that go together correspond in linked environments. -/
theorem Linked.closure (linked : Linked linkages mode left right) {name other : Name}
    (closes : (linkages mode).Closes name other) :
    Corresponds linkages (.closure name left) (.closure other right) := by
  refine .closure mode closes ?_ ?_ linked.strict ?_ ?_ linked.holds linked.present
    linked.leftUnbound linked.rightUnbound
  · intro place target links image atTarget
    obtain ⟨value, atPlace, -⟩ := linked.links place target links image atTarget
    exact ⟨value, atPlace⟩
  · intro place target links value image atPlace atTarget
    obtain ⟨_, atPlaceAgain, corresponds⟩ := linked.links place target links image atTarget
    rw [atPlace] at atPlaceAgain
    cases atPlaceAgain
    exact corresponds
  · intro place target recalls value atPlace unbound
    obtain ⟨image, atTarget, -⟩ := linked.recalls place target recalls value atPlace unbound
    exact ⟨image, atTarget⟩
  · intro place target recalls value image atPlace unbound atTarget
    obtain ⟨_, atTargetAgain, corresponds⟩ :=
      linked.recalls place target recalls value atPlace unbound
    rw [atTarget] at atTargetAgain
    cases atTargetAgain
    exact corresponds

namespace Corresponds

variable {value image : Value}

/-- Corresponding values are equal literals or linked closures. -/
theorem cases (corresponds : Corresponds linkages value image) :
    (∃ literal, value = .literal literal ∧ image = .literal literal) ∨
    (∃ mode name other left right, value = .closure name left ∧ image = .closure other right ∧
      (linkages mode).Closes name other ∧ Linked linkages mode left right) := by
  cases corresponds with
  | literal literal => exact .inl ⟨literal, rfl, rfl⟩
  | closure mode closes bound corresponds strict recalls recalled holds present leftUnbound
      rightUnbound =>
    refine .inr ⟨mode, _, _, _, _, rfl, rfl, closes, ?_⟩
    refine ⟨?_, strict, ?_, holds, present, leftUnbound, rightUnbound⟩
    · intro place target links image atTarget
      obtain ⟨value, atPlace⟩ := bound place target links image atTarget
      exact ⟨value, atPlace, corresponds place target links value image atPlace atTarget⟩
    · intro place target recalling value atPlace unbound
      obtain ⟨image, atTarget⟩ := recalls place target recalling value atPlace unbound
      exact ⟨image, atTarget, recalled place target recalling value image atPlace unbound atTarget⟩

variable {tolerance : Tolerance}

theorem asLiteral (corresponds : Corresponds linkages value image) :
    Outcome tolerance Eq value.asLiteral image.asLiteral := by
  rcases corresponds.cases with ⟨literal, rfl, rfl⟩ | ⟨mode, name, other, left, right, rfl, rfl, -⟩
  · exact .ok rfl
  · exact .fail (tolerance.fails_same _ rfl)

theorem asClosure (corresponds : Corresponds linkages value image) :
    Outcome tolerance (fun found foundImage => ∃ mode,
      (linkages mode).Closes found.1 foundImage.1 ∧ Linked linkages mode found.2 foundImage.2)
      value.asClosure image.asClosure := by
  rcases corresponds.cases with
    ⟨literal, rfl, rfl⟩ | ⟨mode, name, other, left, right, rfl, rfl, closes, linked⟩
  · exact .fail (tolerance.fails_same _ rfl)
  · exact .ok ⟨mode, closes, linked⟩

end Corresponds

/-- Two nodes without parts correspond: equal constants, closures of labels that go together, linked
parameters, or a parameter and the constant that it holds. -/
inductive Node.Agrees (first second : Program) (tolerance : Tolerance) (linkages : Mode → Linkage)
    (mode : Mode) : Node → Node → Prop
  | quote (literal : Literal) :
      Agrees first second tolerance linkages mode (.quote literal) (.quote literal)
  | abstraction {name other : Name} (other_mode : Mode) (known : name ∈ first.names)
      (otherKnown : other ∈ second.names) (closes : (linkages other_mode).Closes name other)
      (linked : ∀ left right, Linked linkages mode left right →
        Linked linkages other_mode left right) :
      Agrees first second tolerance linkages mode (.abstraction name) (.abstraction other)
  | parameter {place target : Place} (known : ∃ handle, first.parameter place.1 place.2 = .ok handle)
      (targetKnown : ∃ handle, second.parameter target.1 target.2 = .ok handle)
      (links : (linkages mode).Links place target)
      (fails : (linkages mode).Present place ∨
        tolerance.Fails (.unboundParameter place.1 place.2) (.unboundParameter target.1 target.2))
      (strict : (linkages mode).Strict place target ∨
        tolerance.Stuck (.unboundParameter target.1 target.2)) :
      Agrees first second tolerance linkages mode (.parameter place.1 place.2)
        (.parameter target.1 target.2)
  | constant {place : Place} {literal : Literal}
      (known : ∃ handle, first.parameter place.1 place.2 = .ok handle)
      (holds : (linkages mode).Holds place literal) :
      Agrees first second tolerance linkages mode (.parameter place.1 place.2) (.quote literal)

/-- Related handles denote corresponding nodes: without parts, or with related parts. -/
def Mirrors (first second : Program) (tolerance : Tolerance) (linkages : Mode → Linkage)
    (mode : Mode) (Related : Handle → Handle → Prop) : Prop :=
  ∀ handle image, Related handle image → ∃ node imageNode,
    first.table.get? handle = some node ∧ second.table.get? image = some imageNode ∧
      (node.Agrees first second tolerance linkages mode imageNode ∨ node.Matches Related imageNode)

namespace Program

variable {first second : Program} {tolerance : Tolerance} {Related : Handle → Handle → Prop}

theorem parameterValue_eq {program : Program} {env : Env} {name : Name} {index : Nat}
    (known : ∃ handle, program.parameter name index = .ok handle) :
    program.parameterValue env name index =
      (env.at? (name, index)).elim (.error (.unboundParameter name index)) .ok := by
  obtain ⟨handle, known⟩ := known
  rw [parameterValue, known, Env.at?]
  cases (env.get? name).bind (·[index]?) with
  | none => rfl
  | some value => rfl

/-- Nodes without parts that agree have corresponding values. -/
theorem valueNode_agrees {node image : Node}
    (agrees : node.Agrees first second tolerance linkages mode image)
    (linked : Linked linkages mode left right) {value imageValue : Handle → Except EvalError Value} :
    Outcome tolerance (Corresponds linkages) (first.valueNode left value node)
      (second.valueNode right imageValue image) := by
  cases agrees with
  | quote literal => exact .ok (.literal literal)
  | @abstraction name other other_mode known otherKnown closes transfer =>
    obtain ⟨label, found⟩ := mem_names_iff.mp known
    obtain ⟨otherLabel, otherFound⟩ := mem_names_iff.mp otherKnown
    simp only [valueNode, resolve_eq_ok_iff.mpr found, resolve_eq_ok_iff.mpr otherFound]
    rw [← name_of_find? found, ← name_of_find? otherFound] at closes
    exact .ok ((transfer left right linked).closure closes)
  | @parameter place target known targetKnown links fails strict =>
    simp only [valueNode, parameterValue_eq known, parameterValue_eq targetKnown]
    cases atTarget : right.at? target with
    | some image =>
      obtain ⟨value, atPlace, corresponds⟩ := linked.links place target links image atTarget
      rw [atPlace]
      exact .ok corresponds
    | none =>
      cases atPlace : left.at? place with
      | none =>
        refine .fail (fails.resolve_left fun present => ?_)
        obtain ⟨value, bound⟩ := linked.present place present
        rw [atPlace] at bound
        cases bound
      | some value =>
        refine .stuck (strict.resolve_left fun strict => ?_)
        obtain ⟨image, bound⟩ := linked.strict place target strict value atPlace
        rw [atTarget] at bound
        cases bound
  | @constant place literal known holds =>
    simp only [valueNode, parameterValue_eq known]
    rw [linked.holds place literal holds]
    exact .ok (.literal literal)

/-- Related handles have corresponding values. -/
theorem value_corresponds (wellFormed : first.table.WellFormed)
    (imageWellFormed : second.table.WellFormed)
    (mirrors : Mirrors first second tolerance linkages mode Related)
    (linked : Linked linkages mode left right) {handle image : Handle} (related : Related handle image) :
    Outcome tolerance (Corresponds linkages) (first.value left handle)
      (second.value right image) := by
  induction handle using Nat.strongRecOn generalizing image with
  | ind handle ih =>
    obtain ⟨node, imageNode, present, imagePresent, agrees | parts⟩ := mirrors handle image related
    · rw [value_of_get? wellFormed present, value_of_get? imageWellFormed imagePresent]
      exact valueNode_agrees agrees linked
    · rw [value_of_get? wellFormed present, value_of_get? imageWellFormed imagePresent]
      have child {part partImage : Handle} (member : part ∈ node.children)
          (related : Related part partImage) :=
        ih part (wellFormed.child_lt present member) related
      cases parts with
      | call => exact .fail (tolerance.fails_same _ rfl)
      | branch => exact .fail (tolerance.fails_same _ rfl)
      | @primitive op operands newOperands atOperands =>
        have literals : Outcome tolerance (List.Forall₂ Eq)
            (operands.mapM fun operand => first.value left operand >>= Value.asLiteral)
            (newOperands.mapM fun operand => second.value right operand >>= Value.asLiteral) :=
          .mapM atOperands fun operand operandImage member _ related =>
            (child member related).bind fun _ _ corresponds => corresponds.asLiteral
        refine literals.bind fun literals imageLiterals same => ?_
        rw [List.forall₂_eq_eq_eq] at same
        cases same
        refine (Outcome.same (Nameless.evaluate op literals)).bind fun literal _ same => ?_
        cases same
        exact .ok (.literal literal)
      | cast atSource =>
        refine (child (List.mem_singleton_self _) atSource).bind fun _ _ corresponds => ?_
        refine corresponds.asLiteral.bind fun literal _ same => ?_
        cases same
        refine (Outcome.same (Nameless.cast literal _)).bind fun result _ same => ?_
        cases same
        exact .ok (.literal result)

end Program

/-- The arguments with which the label of a configuration was entered. -/
def Configuration.arguments (config : Configuration) : List Value :=
  (config.env.get? config.name).getD []

/-- Two labels that go together were entered with corresponding arguments in linked environments. -/
structure Entered (linkages : Mode → Linkage) (mode : Mode) (config image : Configuration) :
    Prop where
  closes : (linkages mode).Closes config.name image.name
  linked : Linked linkages mode config.env image.env
  arguments : List.Forall₂ (Corresponds linkages) config.arguments image.arguments

/-- Two labels can be entered together: they take as many arguments, and binding their parameters
respects the linkage. -/
structure Linkage.Enters (linkage : Linkage) (first second : Program) (tolerance : Tolerance)
    (name other : Name) : Prop where
  labels : ∃ label otherLabel, first.find? name = some label ∧
    second.find? other = some otherLabel ∧ label.arity = otherLabel.arity
  count : ∀ expected actual, tolerance.Fails (.argumentCount name expected actual)
    (.argumentCount other expected actual)
  links : ∀ place target, linkage.Links place target →
    (place.1 = name ↔ target.1 = other) ∧ (place.1 = name → place.2 = target.2)
  strict : ∀ place target, linkage.Strict place target → linkage.Links place target
  recalls : ∀ place target, linkage.Recalls place target →
    (place.1 = name ↔ place.1 = other) ∧ target.1 ≠ other
  holds : ∀ place literal, linkage.Holds place literal → place.1 ≠ name
  present : ∀ place, linkage.Present place → place.1 ≠ name
  leftUnbound : ∀ place, linkage.LeftUnbound place → place.1 ≠ name
  rightUnbound : ∀ place, linkage.RightUnbound place → place.1 ≠ other

section Entering

variable {first second : Program} {tolerance : Tolerance} {name other : Name}
  {arguments images : List Value}

/-- Binding the parameters of two labels that can be entered together keeps environments linked. -/
theorem Linked.set (linked : Linked linkages mode left right)
    (enters : (linkages mode).Enters first second tolerance name other)
    (corresponds : List.Forall₂ (Corresponds linkages) arguments images) :
    Linked linkages mode (left.set name arguments) (right.set other images) where
  links := by
    intro place target links image atTarget
    obtain ⟨together, sameIndex⟩ := enters.links place target links
    rw [Env.at?_set] at atTarget ⊢
    by_cases here : place.1 = name
    · rw [if_pos (together.mp here)] at atTarget
      obtain ⟨value, atPlace, corresponds⟩ := Results.exists_left_of_getElem? corresponds atTarget
      rw [if_pos here, sameIndex here]
      exact ⟨value, atPlace, corresponds⟩
    · rw [if_neg (mt together.mpr here)] at atTarget
      rw [if_neg here]
      exact linked.links place target links image atTarget
  strict := by
    intro place target strict value atPlace
    obtain ⟨together, sameIndex⟩ := enters.links place target (enters.strict place target strict)
    rw [Env.at?_set] at atPlace ⊢
    by_cases here : place.1 = name
    · rw [if_pos here, sameIndex here] at atPlace
      obtain ⟨image, atTarget, -⟩ := Results.exists_right_of_getElem? corresponds atPlace
      rw [if_pos (together.mp here)]
      exact ⟨image, atTarget⟩
    · rw [if_neg here] at atPlace
      rw [if_neg (mt together.mpr here)]
      exact linked.strict place target strict value atPlace
  recalls := by
    intro place target recalls value atPlace unbound
    obtain ⟨together, differs⟩ := enters.recalls place target recalls
    rw [Env.at?_set] at atPlace unbound ⊢
    by_cases here : place.1 = name
    · rw [if_pos here] at atPlace
      obtain ⟨image, atImage, -⟩ := Results.exists_right_of_getElem? corresponds atPlace
      rw [if_pos (together.mp here), atImage] at unbound
      cases unbound
    · rw [if_neg here] at atPlace
      rw [if_neg (mt together.mpr here)] at unbound
      rw [if_neg differs]
      exact linked.recalls place target recalls value atPlace unbound
  holds := by
    intro place literal holds
    rw [Env.at?_set, if_neg (enters.holds place literal holds)]
    exact linked.holds place literal holds
  present := by
    intro place present
    rw [Env.at?_set, if_neg (enters.present place present)]
    exact linked.present place present
  leftUnbound := by
    intro place unbound
    rw [Env.at?_set, if_neg (enters.leftUnbound place unbound)]
    exact linked.leftUnbound place unbound
  rightUnbound := by
    intro place unbound
    rw [Env.at?_set, if_neg (enters.rightUnbound place unbound)]
    exact linked.rightUnbound place unbound

theorem Configuration.arguments_set (env : Env) (name : Name) (arguments : List Value) :
    Configuration.arguments ⟨name, env.set name arguments⟩ = arguments := by
  rw [Configuration.arguments, Env.get?_set, if_pos rfl, Option.getD_some]

/-- Entering corresponding closures with corresponding arguments has corresponding outcomes. -/
theorem Program.enter_corresponds (linked : Linked linkages mode left right)
    (closes : (linkages mode).Closes name other)
    (enters : (linkages mode).Enters first second tolerance name other)
    (corresponds : List.Forall₂ (Corresponds linkages) arguments images) :
    Outcome tolerance (fun config image => ∃ mode, Entered linkages mode config image)
      (first.enter name left arguments) (second.enter other right images) := by
  obtain ⟨label, otherLabel, found, otherFound, sameArity⟩ := enters.labels
  by_cases fits : arguments.length = label.arity
  · have imageFits := corresponds.length_eq.symm.trans (fits.trans sameArity)
    rw [enter_eq_ok_iff.mpr ⟨label, found, fits, rfl⟩,
      enter_eq_ok_iff.mpr ⟨otherLabel, otherFound, imageFits, rfl⟩]
    refine .ok ⟨mode, closes, linked.set enters corresponds, ?_⟩
    rwa [Configuration.arguments_set, Configuration.arguments_set]
  · rw [enter_eq_error found fits]
    rw [corresponds.length_eq, sameArity] at fits
    rw [enter_eq_error otherFound fits, corresponds.length_eq, sameArity]
    exact .fail (enters.count otherLabel.arity images.length)

/-- Bodies with related parts jump to corresponding configurations. -/
theorem Program.jumpTo_corresponds (wellFormed : first.table.WellFormed)
    (imageWellFormed : second.table.WellFormed)
    (enters : ∀ mode name other, (linkages mode).Closes name other →
      (linkages mode).Enters first second tolerance name other)
    {Related : Handle → Handle → Prop}
    (mirrors : Mirrors first second tolerance linkages mode Related)
    (linked : Linked linkages mode left right) {node imageNode : Node}
    (parts : node.Matches Related imageNode) (isBody : node.isBody = true) :
    Outcome tolerance (fun config image => ∃ mode, Entered linkages mode config image)
      (first.jumpTo left name node) (second.jumpTo right other imageNode) := by
  have value {part partImage : Handle} (related : Related part partImage) :=
    value_corresponds wellFormed imageWellFormed mirrors linked related
  cases parts with
  | call atCallee atArguments =>
    refine (value atCallee).bind fun callee calleeImage corresponds => ?_
    refine corresponds.asClosure.bind fun (continuation, captured) (other, otherCaptured) closure => ?_
    obtain ⟨closureMode, closes, capturedLinked⟩ := closure
    have arguments : Outcome tolerance (List.Forall₂ (Corresponds linkages)) _ _ :=
      .mapM atArguments fun argument argumentImage _ _ related => value related
    refine arguments.bind fun arguments images corresponds => ?_
    exact enter_corresponds capturedLinked closes (enters _ _ _ closes) corresponds
  | branch atArguments =>
    rcases atArguments with _ | ⟨atCondition, _ | ⟨atTrue, _ | ⟨atFalse, _ | ⟨_, more⟩⟩⟩⟩
    · exact .fail (tolerance.fails_same _ rfl)
    · exact .fail (tolerance.fails_same _ rfl)
    · exact .fail (tolerance.fails_same _ rfl)
    · refine (value atCondition).bind fun condition conditionImage corresponds => ?_
      refine corresponds.asLiteral.bind fun literal _ same => ?_
      cases same
      refine (Outcome.same (Nameless.asBool literal)).bind fun taken _ same => ?_
      cases same
      refine (value (Results.related_ite taken atTrue atFalse)).bind fun target targetImage corresponds => ?_
      refine corresponds.asClosure.bind
        fun (continuation, captured) (other, otherCaptured) closure => ?_
      obtain ⟨closureMode, closes, capturedLinked⟩ := closure
      exact enter_corresponds capturedLinked closes (enters _ _ _ closes) .nil
    · simp only [jumpTo, jumpBy, List.length_cons, more.length_eq]
      exact .fail (tolerance.fails_same _ rfl)
  | primitive => cases isBody
  | cast => cases isBody

/-- Steps of labels whose bodies have related parts lead to corresponding configurations. -/
theorem Program.step_corresponds (wellFormed : first.table.WellFormed)
    (imageWellFormed : second.table.WellFormed)
    (enters : ∀ mode name other, (linkages mode).Closes name other →
      (linkages mode).Enters first second tolerance name other)
    {Related : Handle → Handle → Prop}
    (mirrors : Mirrors first second tolerance linkages mode Related) {config image : Configuration}
    (linked : Linked linkages mode config.env image.env) {label imageLabel : Label}
    {node imageNode : Node} (found : first.find? config.name = some label)
    (foundImage : second.find? image.name = some imageLabel)
    (present : first.table.get? label.body = some node)
    (imagePresent : second.table.get? imageLabel.body = some imageNode)
    (parts : node.Matches Related imageNode) (isBody : node.isBody = true) :
    Outcome tolerance (fun config image => ∃ mode, Entered linkages mode config image)
      (first.step config) (second.step image) := by
  rw [step_eq_jumpTo wellFormed found present, step_eq_jumpTo imageWellFormed foundImage imagePresent]
  exact jumpTo_corresponds wellFormed imageWellFormed enters mirrors linked parts isBody

end Entering

/-- Two runs halted together: at the same label, after as many steps, with corresponding arguments. -/
structure Halt.Corresponds (linkages : Mode → Linkage) (halt image : Halt) : Prop where
  continuation : image.continuation = halt.continuation
  steps : image.steps = halt.steps
  arguments : List.Forall₂ (CpsGraph.Corresponds linkages) halt.arguments image.arguments

/-- Entered labels of the same name halt together. -/
theorem Entered.halt {config image : Configuration} (entered : Entered linkages mode config image)
    (same : image.name = config.name) (steps : Nat) :
    (config.halt steps).Corresponds linkages (image.halt steps) :=
  ⟨same, rfl, entered.arguments⟩

end CpsGraph
