import CpsGraph.Proofs.FaultlessPrograms
import CpsGraph.Proofs.Rebuilding
import CpsGraph.Specialize

/-! # What redirecting calls builds

Redirecting the calls of one label to another succeeds in a valid program whose calls of the old
label have the right number of arguments. In a valid program calls are bodies, so nothing but whole
bodies is replaced: a label that calls the old label directly now calls the new one with the chosen
arguments, and all other labels keep their bodies.
-/

namespace CpsGraph

/-- The elements of a list at the given positions, in their order. -/
def Selects {α : Type} (positions : List Nat) (elements selected : List α) : Prop :=
  selected.map some = positions.map (elements[·]?)

instance {α : Type} [DecidableEq α] (positions : List Nat) (elements selected : List α) :
    Decidable (Selects positions elements selected) :=
  inferInstanceAs (Decidable (_ = _))

namespace Selects

variable {α β : Type} {positions : List Nat} {elements selected : List α} {images others : List β}
  {Related : α → β → Prop}

theorem iff_forall₂ : Selects positions elements selected ↔
    List.Forall₂ (fun position element => elements[position]? = some element) positions selected := by
  rw [Selects, eq_comm, ← List.forall₂_eq_eq_eq, List.forall₂_map_left_iff,
    List.forall₂_map_right_iff]

theorem subset (selects : Selects positions elements selected) : selected ⊆ elements := by
  intro element member
  obtain ⟨position, -, atPosition⟩ := Results.exists_left_of_mem (iff_forall₂.mp selects) member
  exact List.mem_of_getElem? atPosition

/-- Selecting at the same positions from related lists gives related lists. -/
theorem forall₂ (selects : Selects positions elements selected)
    (selectsImages : Selects positions images others) (related : List.Forall₂ Related elements images) :
    List.Forall₂ Related selected others := by
  refine Results.forall₂_of_common (iff_forall₂.mp selects) (iff_forall₂.mp selectsImages) ?_
  rintro position element image - - atElement atImage
  obtain ⟨again, atAgain, here⟩ := Results.exists_right_of_getElem? related atElement
  rw [atImage] at atAgain
  cases atAgain
  exact here

/-- What is related to selected elements was selected too, if an element is related to one only. -/
theorem of_forall₂ (selects : Selects positions elements selected)
    (related : List.Forall₂ Related elements images) (relatedSelected : List.Forall₂ Related selected others)
    (unique : ∀ element image other, Related element image → Related element other → image = other) :
    Selects positions images others := by
  refine iff_forall₂.mpr
    (Results.forall₂_of_common (iff_forall₂.mp selects).flip relatedSelected ?_)
  rintro element position other - - atElement relatedOther
  obtain ⟨image, atImage, here⟩ := Results.exists_right_of_getElem? related atElement
  rw [atImage, unique element image other here relatedOther]

end Selects

namespace Substitution

variable {substitution : Substitution} {base : Table} {state : State}

/-- A label was given the image of its body and kept its signature. -/
def Redefined (substitution : Substitution) (state : State) (label : Label) : Prop :=
  ∃ image, state.program.find? label.name = some image ∧ image.signature = label.signature ∧
    substitution.Maps state.rebuilt label.body image.body

section Redefining

variable (targets : ∀ handle image, substitution.lookup handle = some image → image < base.size)
  (wellFormed : base.WellFormed)

include targets wellFormed

/-- Giving a label the image of its body keeps the state sound and the interfaces of the labels,
whatever the image is. -/
theorem Sound.redefineFrom_run (sound : Sound substitution base state) {label : Label}
    (inRange : label.body < base.size) {changed : Bool} {later : State}
    (ran : (substitution.redefineFrom label).run state = .ok (changed, later)) :
    Sound substitution base later ∧ Continues state later ∧
      later.program.labels.map Label.interface = state.program.labels.map Label.interface := by
  obtain ⟨⟨image, middle⟩, applied, ran⟩ := Results.bind_eq_ok_iff.mp ran
  obtain ⟨soundMiddle, toMiddle, labels⟩ := sound.apply_run_below targets wellFormed inRange applied
  change (if image = label.body then _ else _ : RebuildM Bool).run middle = _ at ran
  by_cases same : image = label.body
  · rw [if_pos same] at ran
    cases ran
    exact ⟨soundMiddle, toMiddle, congrArg _ labels⟩
  · rw [if_neg same] at ran
    change ((liftM (middle.program.redefine label.name image) : RebuildM Program).run middle >>= _) = _
      at ran
    cases redefined : middle.program.redefine label.name image with
    | error fault =>
      rw [redefined] at ran
      cases ran
    | ok grown =>
      rw [redefined] at ran
      cases ran
      obtain ⟨grownWellFormed, growth⟩ := soundMiddle.wellFormed.redefine redefined
      refine ⟨soundMiddle.grow growth grownWellFormed,
        toMiddle.trans ⟨growth, List.Subset.refl _⟩, ?_⟩
      rw [soundMiddle.wellFormed.interfaces_redefine redefined, labels]

theorem Sound.redefineAll_run {labels : List Label} (sound : Sound substitution base state)
    (inRange : ∀ label ∈ labels, label.body < base.size) {changed : List Bool} {later : State}
    (ran : (labels.mapM substitution.redefineFrom).run state = .ok (changed, later)) :
    Sound substitution base later ∧ Continues state later ∧
      later.program.labels.map Label.interface = state.program.labels.map Label.interface := by
  induction labels generalizing state changed with
  | nil =>
    cases ran
    exact ⟨sound, .refl _, rfl⟩
  | cons label labels ih =>
    rw [List.mapM_cons] at ran
    obtain ⟨⟨first, middle⟩, ranFirst, ran⟩ := Results.bind_eq_ok_iff.mp ran
    obtain ⟨⟨others, last⟩, ranRest, same⟩ := Results.bind_eq_ok_iff.mp ran
    cases same
    obtain ⟨soundMiddle, toMiddle, interfaces⟩ := sound.redefineFrom_run targets wellFormed
      (inRange label List.mem_cons_self) ranFirst
    obtain ⟨soundLater, toLater, interfacesRest⟩ := ih soundMiddle
      (fun other member => inRange other (List.mem_cons_of_mem _ member)) ranRest
    exact ⟨soundLater, toMiddle.trans toLater, interfacesRest.trans interfaces⟩

variable (bodies : ∀ handle image, substitution.lookup handle = some image →
    ∃ node, base.get? image = some node ∧ node.isBody = true)

include bodies

theorem Sound.exists_redefineFrom (sound : Sound substitution base state) {label : Label}
    (found : state.program.find? label.name = some label) {node : Node}
    (present : base.get? label.body = some node) (isBody : node.isBody = true) :
    ∃ changed later, (substitution.redefineFrom label).run state = .ok (changed, later) ∧
      Sound substitution base later ∧ Continues state later ∧ Redefined substitution later label ∧
      ∀ name, name ≠ label.name → later.program.find? name = state.program.find? name := by
  obtain ⟨image, middle, ran, soundMiddle, toMiddle, labelsMiddle, maps⟩ :=
    succeeds_apply targets wellFormed (Table.lt_size_of_get? present) state sound trivial
  have sameFind (name : Name) : middle.program.find? name = state.program.find? name := by
    rw [Program.find?, labelsMiddle]
    rfl
  by_cases same : image = label.body
  · subst same
    refine ⟨false, middle, ?_, soundMiddle, toMiddle,
      ⟨label, (sameFind label.name).trans found, rfl, maps⟩, fun name _ => sameFind name⟩
    rw [redefineFrom, StateT.run_bind, ran]
    change (if label.body = label.body then _ else _ : RebuildM Bool).run middle = _
    rw [if_pos rfl]
    rfl
  · have imageBody : ∃ node, middle.program.table.get? image = some node ∧ node.isBody = true := by
      cases replaced : substitution.lookup label.body with
      | none => exact soundMiddle.exists_body present isBody replaced maps
      | some replacement =>
        obtain ⟨node, imagePresent, imageIsBody⟩ := bodies _ _ replaced
        rcases maps with replacedAgain | ⟨unreplaced, -⟩
        · rw [replaced] at replacedAgain
          cases replacedAgain
          exact ⟨node, soundMiddle.growth imagePresent, imageIsBody⟩
        · rw [replaced] at unreplaced
          cases unreplaced
    obtain ⟨imageNode, imagePresent, imageIsBody⟩ := imageBody
    obtain ⟨grown, new, redefined, grownWellFormed, growth, find, signed, rfl⟩ :=
      soundMiddle.wellFormed.exists_redefine ((sameFind label.name).trans found) imagePresent
        imageIsBody
    refine ⟨true, { middle with program := grown }, ?_, soundMiddle.grow growth grownWellFormed,
      toMiddle.trans ⟨growth, List.Subset.refl _⟩, ⟨new, ?_, signed, maps⟩, fun name other => ?_⟩
    · rw [redefineFrom, StateT.run_bind, ran]
      change (if new.body = label.body then _ else _ : RebuildM Bool).run middle = _
      rw [if_neg same]
      change ((liftM (middle.program.redefine _ _) : RebuildM Program).run middle >>= _) = _
      rw [redefined]
      rfl
    · exact (find label.name).trans (if_pos rfl)
    · exact ((find name).trans (if_neg other)).trans (sameFind name)

/-- All labels can be given the images of their bodies, one after the other. -/
theorem Sound.exists_redefineAll (sound : Sound substitution base state) {labels : List Label}
    (distinct : (labels.map (·.name)).Nodup)
    (found : ∀ label ∈ labels, state.program.find? label.name = some label)
    (present : ∀ label ∈ labels, ∃ node, base.get? label.body = some node ∧ node.isBody = true) :
    ∃ changed later, (labels.mapM substitution.redefineFrom).run state = .ok (changed, later) ∧
      Sound substitution base later ∧ Continues state later ∧
      (∀ label ∈ labels, Redefined substitution later label) ∧
      ∀ name, name ∉ labels.map (·.name) →
        later.program.find? name = state.program.find? name := by
  induction labels generalizing state with
  | nil => exact ⟨[], state, rfl, sound, .refl state, nofun, fun _ _ => rfl⟩
  | cons label labels ih =>
    obtain ⟨fresh, distinct⟩ := List.nodup_cons.mp distinct
    obtain ⟨node, atBody, isBody⟩ := present label List.mem_cons_self
    obtain ⟨changed, middle, ran, soundMiddle, toMiddle, ⟨image, foundImage, signed, maps⟩, kept⟩ :=
      sound.exists_redefineFrom targets wellFormed bodies (found label List.mem_cons_self) atBody
        isBody
    obtain ⟨others, later, ranRest, soundLater, toLater, redefined, keptRest⟩ := ih soundMiddle
      distinct (fun other member => by
        rw [kept]
        · exact found other (List.mem_cons_of_mem _ member)
        · exact fun same => fresh (List.mem_map.mpr ⟨other, member, same⟩))
      fun other member => present other (List.mem_cons_of_mem _ member)
    refine ⟨changed :: others, later, ?_, soundLater, toMiddle.trans toLater, ?_, ?_⟩
    · rw [List.mapM_cons, StateT.run_bind, ran]
      change (labels.mapM substitution.redefineFrom >>= fun rest => pure (changed :: rest)).run
        middle = _
      rw [StateT.run_bind, ranRest]
      rfl
    · refine List.forall_mem_cons.mpr ⟨⟨image, ?_, signed, maps.mono toLater.rebuilt⟩, redefined⟩
      rw [keptRest label.name fresh]
      exact foundImage
    · intro name other
      rw [List.map_cons, List.mem_cons, not_or] at other
      obtain ⟨notHere, notLater⟩ := other
      rw [keptRest name notLater, kept name notHere]

end Redefining

end Substitution

namespace Program

/-- What the body of a label becomes: a call of the old label is replaced, and any other body is
kept. -/
inductive RedirectsBody (program redirected : Program) (old new : Label) (mapping : List Nat)
    (body : Handle) : Handle → Prop
  | replaced {image : Handle} {arguments selected : List Handle}
      (present : program.table.get? body = some (.call old.abstraction arguments))
      (selects : selectArguments mapping arguments = .ok selected)
      (imagePresent : redirected.table.get? image = some (.call new.abstraction selected)) :
      RedirectsBody program redirected old new mapping body image
  | kept (other : ∀ arguments, program.table.get? body ≠ some (.call old.abstraction arguments)) :
      RedirectsBody program redirected old new mapping body body

/-- What redirecting calls builds: the same labels, with redirected bodies. -/
structure Redirected (program redirected : Program) (old new : Label) (mapping : List Nat) :
    Prop where
  wellFormed : redirected.WellFormed
  growth : redirected.table.Extends program.table
  interfaces : redirected.labels.map Label.interface = program.labels.map Label.interface
  labels : ∀ name label, program.find? name = some label →
    ∃ image, redirected.find? name = some image ∧ image.signature = label.signature ∧
      program.RedirectsBody redirected old new mapping label.body image.body

variable {program : Program} {oldName newName : Name} {old new : Label} {mapping : List Nat}
  {handle : Handle} {arguments : List Handle}

theorem callArguments?_eq_some_iff {callee : Handle} :
    program.callArguments? callee handle = some arguments ↔
      program.table.get? handle = some (.call callee arguments) := by
  unfold callArguments?
  split
  next other found present =>
    split_ifs with same
    · rw [present, same]
      simp
    · rw [present]
      simp [same]
  next noCall =>
    exact ⟨nofun, fun present => absurd present (noCall callee arguments)⟩

/-- Arguments can be chosen by positions in range. -/
theorem exists_selectArguments (inRange : ∀ index ∈ mapping, index < arguments.length) :
    ∃ selected, selectArguments mapping arguments = .ok selected := by
  refine Results.exists_mapM_eq_ok fun index member => ?_
  rw [List.getElem?_eq_getElem (inRange index member)]
  exact ⟨_, rfl⟩

theorem selectArguments_eq_ok_iff {selected : List Handle} :
    selectArguments mapping arguments = .ok selected ↔ Selects mapping arguments selected := by
  rw [selectArguments, Results.mapM_eq_ok_iff, Selects.iff_forall₂]
  constructor
  · refine List.Forall₂.imp fun index argument chosen => ?_
    split at chosen
    next found present =>
      cases chosen
      exact present
    next => cases chosen
  · refine List.Forall₂.imp fun index argument present => ?_
    rw [present]

/-- Calls made of the arguments of other calls can be interned. -/
theorem wellFormed_internAll_calls (wellFormed : program.WellFormed) (isLabel : new ∈ program.labels)
    {callee : Handle} {sites : List (Handle × List Handle)}
    (isCall : ∀ site ∈ sites, program.table.get? site.1 = some (.call callee site.2))
    {calls : List Node} (made : List.Forall₂ (fun site call =>
      (do return .call new.abstraction (← selectArguments mapping site.2) : Except GraphError Node) =
        .ok call) sites calls) :
    (program.table.internAll calls).2.WellFormed := by
  refine wellFormed.table.internAll fun call member child part => ?_
  obtain ⟨site, isSite, makes⟩ := Results.exists_left_of_mem made member
  obtain ⟨selected, selects, same⟩ := Results.bind_eq_ok_iff.mp makes
  cases same
  have present := isCall site isSite
  rcases List.mem_cons.mp part with rfl | isArgument
  · exact Table.lt_size_of_get? (wellFormed.labels new isLabel).abstraction
  · refine Nat.lt_trans (wellFormed.table.child_lt present ?_) (Table.lt_size_of_get? present)
    exact List.mem_cons_of_mem _ ((selectArguments_eq_ok_iff.mp selects).subset isArgument)

/-- The calls with a callee among some nodes, with their arguments. -/
def callSites (program : Program) (callee : Handle) (handles : List Handle) :
    List (Handle × List Handle) :=
  handles.filterMap fun handle => (program.callArguments? callee handle).map (handle, ·)

/-- What replaces the calls among some nodes, given the new calls. -/
def redirection (program : Program) (callee : Handle) (handles : List Handle) (calls : List Node) :
    Substitution :=
  ((program.callSites callee handles).map (·.1)).zip (program.table.internAll calls).1

/-- The sites are calls with these arguments. -/
theorem get?_of_mem_callSites {callee : Handle} {handles : List Handle} {site : Handle × List Handle}
    (member : site ∈ program.callSites callee handles) :
    program.table.get? site.1 = some (.call callee site.2) := by
  obtain ⟨handle, -, found⟩ := List.mem_filterMap.mp member
  obtain ⟨arguments, isCall, rfl⟩ := Option.map_eq_some_iff.mp found
  exact callArguments?_eq_some_iff.mp isCall

/-- How calls are redirected, step by step. -/
theorem redirectCalls_eq_ok_iff {redirected : Program} :
    program.redirectCalls oldName newName mapping = .ok redirected ↔
      ∃ old new order calls changed later, program.find? oldName = some old ∧
        program.find? newName = some new ∧ (∀ index ∈ mapping, index < old.arity) ∧
        program.visitAll = .ok order ∧
        (program.callSites old.abstraction order).mapM (fun (_, arguments) => do
          return Node.call new.abstraction (← selectArguments mapping arguments)) = .ok calls ∧
        (program.labels.mapM (program.redirection old.abstraction order calls).redefineFrom).run
          { program := { program with table := (program.table.internAll calls).2 } } =
            .ok (changed, later) ∧
        later.program = redirected := by
  have inRange_iff (old : Label) :
      mapping.find? (old.arity ≤ ·) = none ↔ ∀ index ∈ mapping, index < old.arity := by
    simp [List.find?_eq_none]
  constructor
  · intro success
    obtain ⟨event, success⟩ := Results.ofSuccess_outcome_eq_ok_iff.mp success
    obtain ⟨old, foundOld, success⟩ := Results.bind_eq_ok_iff.mp success
    obtain ⟨new, foundNew, success⟩ := Results.bind_eq_ok_iff.mp success
    cases checked : mapping.find? (old.arity ≤ ·) with
    | some index =>
      rw [checked] at success
      cases success
    | none =>
      rw [checked] at success
      obtain ⟨order, visited, success⟩ := Results.bind_eq_ok_iff.mp success
      obtain ⟨calls, collected, success⟩ := Results.bind_eq_ok_iff.mp success
      obtain ⟨⟨changed, later⟩, ran, same⟩ := Results.bind_eq_ok_iff.mp success
      cases same
      exact ⟨old, new, order, calls, changed, later, resolve_eq_ok_iff.mp foundOld,
        resolve_eq_ok_iff.mp foundNew, (inRange_iff old).mp checked, visited, collected, ran, rfl⟩
  · rintro ⟨old, new, order, calls, changed, later, foundOld, foundNew, inRange, visited, collected,
      ran, rfl⟩
    refine Results.ofSuccess_outcome_eq_ok_iff.mpr ⟨.callsRedirected old.name new.name
      (program.callSites old.abstraction order).length (changed.countP id), ?_⟩
    refine Results.bind_eq_ok_iff.mpr ⟨old, resolve_eq_ok_iff.mpr foundOld,
      Results.bind_eq_ok_iff.mpr ⟨new, resolve_eq_ok_iff.mpr foundNew, ?_⟩⟩
    rw [(inRange_iff old).mpr inRange]
    exact Results.bind_eq_ok_iff.mpr ⟨order, visited, Results.bind_eq_ok_iff.mpr
      ⟨calls, collected, Results.bind_eq_ok_iff.mpr ⟨(changed, later), ran, rfl⟩⟩⟩

/-- Redirecting calls starts from a sound state, with replacements and bodies that have nodes. -/
theorem WellFormed.redirection (wellFormed : program.WellFormed) (isLabel : new ∈ program.labels)
    {callee : Handle} {order : List Handle} {calls : List Node}
    (collected : (program.callSites callee order).mapM (fun (_, arguments) => do
      return Node.call new.abstraction (← selectArguments mapping arguments)) = .ok calls) :
    (program.table.internAll calls).2.WellFormed ∧
      Substitution.Sound (program.redirection callee order calls) (program.table.internAll calls).2
        { program := { program with table := (program.table.internAll calls).2 } } ∧
      (∀ handle image, (program.redirection callee order calls).lookup handle = some image →
        image < (program.table.internAll calls).2.size) ∧
      ∀ label ∈ program.labels, label.body < (program.table.internAll calls).2.size := by
  have closed := wellFormed_internAll_calls wellFormed isLabel (fun site => get?_of_mem_callSites)
    (Results.mapM_eq_ok_iff.mp collected)
  have growth := program.table.extends_internAll calls
  refine ⟨closed, ⟨Table.extends_refl _, wellFormed.grow growth closed rfl, nofun⟩, ?_, ?_⟩
  · intro handle image found
    have replacement := List.of_mem_zip (Results.mem_of_lookup found)
    obtain ⟨call, -, present⟩ :=
      Results.exists_right_of_mem (program.table.get?_internAll calls) replacement.2
    exact Table.lt_size_of_get? present
  · intro label member
    obtain ⟨node, present, -⟩ := (wellFormed.labels label member).body
    exact Table.lt_size_of_get? (growth present)

/-- Redirecting calls keeps a program well formed and all of its nodes. -/
theorem WellFormed.redirectCalls (wellFormed : program.WellFormed) {redirected : Program}
    (success : program.redirectCalls oldName newName mapping = .ok redirected) :
    redirected.WellFormed ∧ redirected.table.Extends program.table := by
  obtain ⟨old, new, order, calls, changed, later, -, foundNew, -, -, collected, ran, rfl⟩ :=
    redirectCalls_eq_ok_iff.mp success
  obtain ⟨closed, sound, targets, inRange⟩ := wellFormed.redirection (mem_of_find? foundNew) collected
  obtain ⟨soundLater, -, -⟩ := sound.redefineAll_run targets closed inRange ran
  exact ⟨soundLater.wellFormed, soundLater.growth.trans (program.table.extends_internAll calls)⟩

section Redirecting

variable (wellFormed : program.WellFormed) (valid : program.Valid)

include wellFormed valid

/-- In a valid program the calls that can be reached are bodies of labels. -/
theorem Reached.exists_body (reached : program.Reached handle) {callee : Handle}
    (present : program.table.get? handle = some (.call callee arguments)) :
    ∃ label ∈ program.labels, label.body = handle := by
  obtain ⟨label, member, rfl | isParameter | inside⟩ := reached
  · rw [(wellFormed.labels label member).node] at present
    cases present
  · obtain ⟨index, atIndex⟩ := List.mem_iff_getElem?.mp isParameter
    rw [(wellFormed.labels label member).get?_parameter atIndex] at present
    cases present
  · rcases eq_or_expression_of_mem_parts wellFormed valid member inside with rfl | expression
    · exact ⟨label, member, rfl⟩
    · cases expression.isExpression present

/-- The sites of a traversal are the reachable calls with their arguments. -/
theorem exists_sites (callee : Handle) : ∃ order, program.visitAll = .ok order ∧
    ∀ handle arguments, (handle, arguments) ∈ program.callSites callee order ↔
      program.Reached handle ∧ program.table.get? handle = some (.call callee arguments) := by
  obtain ⟨order, visited, reached⟩ := (valid.resolved wellFormed).exists_visitAll wellFormed
  refine ⟨order, visited, fun handle arguments => ?_⟩
  rw [callSites, List.mem_filterMap, ← callArguments?_eq_some_iff]
  constructor
  · rintro ⟨other, member, found⟩
    obtain ⟨_, found, same⟩ := Option.map_eq_some_iff.mp found
    cases same
    exact ⟨(reached handle).mp member, found⟩
  · rintro ⟨isReached, found⟩
    exact ⟨handle, (reached handle).mpr isReached, by rw [found]; rfl⟩

/-- The calls of the old label and the calls that replace them. -/
inductive Replacement (program : Program) (grown : Table) (old new : Label) (mapping : List Nat)
    (handle image : Handle) : Prop
  | intro {arguments selected : List Handle} (reached : program.Reached handle)
      (present : program.table.get? handle = some (.call old.abstraction arguments))
      (selects : selectArguments mapping arguments = .ok selected)
      (imagePresent : grown.get? image = some (.call new.abstraction selected))

/-- All calls of the old label can be replaced at once. -/
theorem exists_replacements (isLabel : new ∈ program.labels)
    (inRange : ∀ index ∈ mapping, index < old.arity)
    (counts : ∀ label ∈ program.labels, ∀ arguments,
      program.table.get? label.body = some (.call old.abstraction arguments) →
        arguments.length = old.arity) {sites : List (Handle × List Handle)}
    (isSite : ∀ handle arguments, (handle, arguments) ∈ sites ↔ program.Reached handle ∧
      program.table.get? handle = some (.call old.abstraction arguments)) :
    ∃ calls, (sites.mapM fun (_, arguments) => do
        return Node.call new.abstraction (← selectArguments mapping arguments)) = .ok calls ∧
      (program.table.internAll calls).2.WellFormed ∧
      List.Forall₂ (program.Replacement (program.table.internAll calls).2 old new mapping)
        (sites.map (·.1)) (program.table.internAll calls).1 := by
  have selects : ∀ site ∈ sites, ∃ selected, selectArguments mapping site.2 = .ok selected := by
    rintro ⟨handle, arguments⟩ member
    obtain ⟨reached, present⟩ := (isSite handle arguments).mp member
    obtain ⟨label, isLabel, rfl⟩ := reached.exists_body wellFormed valid present
    refine exists_selectArguments ?_
    rwa [counts label isLabel arguments present]
  have each : ∀ site ∈ sites, ∃ call, (do
      return .call new.abstraction (← selectArguments mapping site.2) : Except GraphError Node) =
        .ok call := by
    intro site member
    obtain ⟨selected, success⟩ := selects site member
    exact ⟨.call new.abstraction selected, by rw [success]; rfl⟩
  obtain ⟨calls, collected⟩ := Results.exists_mapM_eq_ok each
  have made := Results.mapM_eq_ok_iff.mp collected
  refine ⟨calls, collected, ?_, ?_⟩
  · exact wellFormed_internAll_calls wellFormed isLabel
      (fun site member => ((isSite site.1 site.2).mp member).2) made
  · rw [List.forall₂_map_left_iff]
    refine Results.forall₂_of_common made.flip (program.table.get?_internAll calls).flip ?_
    rintro call ⟨handle, arguments⟩ image - isMember makes imagePresent
    obtain ⟨selected, success, same⟩ := Results.bind_eq_ok_iff.mp makes
    cases same
    obtain ⟨reached, present⟩ := (isSite handle arguments).mp isMember
    exact .intro reached present success imagePresent

/-- Once the calls are replaced, each label has a redirected body. -/
theorem redirectsBody_of_maps {grown : Table} {substitution : Substitution}
    {state : Substitution.State} (growth : grown.Extends program.table) (closed : grown.WellFormed)
    (sound : Substitution.Sound substitution grown state)
    (replaced : ∀ handle image, substitution.lookup handle = some image →
      program.Replacement grown old new mapping handle image)
    (unreplaced : ∀ handle, substitution.lookup handle = none → program.Reached handle →
      ∀ arguments, program.table.get? handle ≠ some (.call old.abstraction arguments))
    {label : Label} (member : label ∈ program.labels) {image : Handle}
    (maps : substitution.Maps state.rebuilt label.body image) :
    program.RedirectsBody state.program old new mapping label.body image := by
  cases missing : substitution.lookup label.body with
  | some replacement =>
    rcases maps with found | ⟨notFound, -⟩
    · rw [missing] at found
      cases found
      obtain ⟨-, present, selects, imagePresent⟩ := replaced _ _ missing
      exact .replaced present selects (sound.growth imagePresent)
    · rw [missing] at notFound
      cases notFound
  | none =>
    have inRange := Table.lt_size_of_get? (valid label member).choose_spec.1
    have partsKept : ∀ part ∈ grown.parts label.body, substitution.lookup part = none := by
      intro part inside
      rw [Table.parts_of_extends growth wellFormed.table closed inRange] at inside
      refine Option.eq_none_iff_forall_ne_some.mpr fun replacement found => ?_
      rcases eq_or_expression_of_mem_parts wellFormed valid member inside with rfl | expression
      · rw [missing] at found
        cases found
      · obtain ⟨-, present, -, -⟩ := replaced _ _ found
        cases expression.isExpression present
    rw [← sound.eq_of_unreplaced closed partsKept maps]
    exact .kept (unreplaced _ missing ⟨label, member, .inr (.inr (Table.mem_parts_self _ _))⟩)

/-- The calls of one label can be redirected to another one. -/
theorem exists_redirectCalls (foundOld : program.find? oldName = some old)
    (foundNew : program.find? newName = some new) (inRange : ∀ index ∈ mapping, index < old.arity)
    (counts : ∀ label ∈ program.labels, ∀ arguments,
      program.table.get? label.body = some (.call old.abstraction arguments) →
        arguments.length = old.arity) :
    ∃ redirected, program.redirectCalls oldName newName mapping = .ok redirected ∧
      program.Redirected redirected old new mapping := by
  obtain ⟨order, visited, isSite⟩ := exists_sites wellFormed valid old.abstraction
  obtain ⟨calls, collected, closed, replacements⟩ :=
    exists_replacements wellFormed valid (mem_of_find? foundNew) inRange counts isSite
  have growth := program.table.extends_internAll calls
  have replaced (handle image : Handle)
      (found : (program.redirection old.abstraction order calls).lookup handle = some image) :
      program.Replacement (program.table.internAll calls).2 old new mapping handle image :=
    Results.related_of_lookup_zip replacements found
  have unreplaced (handle : Handle)
      (missing : (program.redirection old.abstraction order calls).lookup handle = none)
      (reached : program.Reached handle) (arguments : List Handle) :
      program.table.get? handle ≠ some (.call old.abstraction arguments) := by
    intro present
    refine Results.not_mem_of_lookup_zip replacements missing ?_
    exact List.mem_map.mpr ⟨_, (isSite handle arguments).mpr ⟨reached, present⟩, rfl⟩
  obtain ⟨-, sound, targets, bodies⟩ := wellFormed.redirection (mem_of_find? foundNew) collected
  obtain ⟨changed, later, ran, soundLater, -, redefined, -⟩ := sound.exists_redefineAll targets closed
    (fun handle image found => by
      obtain ⟨-, -, -, imagePresent⟩ := replaced handle image found
      exact ⟨_, imagePresent, rfl⟩) wellFormed.names
    (fun label member => find?_of_mem wellFormed.names member) fun label member => by
      obtain ⟨node, present, validBody⟩ := valid label member
      exact ⟨node, growth present, validBody.isBody⟩
  obtain ⟨-, -, interfaces⟩ := sound.redefineAll_run targets closed bodies ran
  refine ⟨later.program, ?_, soundLater.wellFormed, soundLater.growth.trans growth, interfaces, ?_⟩
  · exact redirectCalls_eq_ok_iff.mpr ⟨old, new, order, calls, changed, later, foundOld, foundNew,
      inRange, visited, collected, ran, rfl⟩
  · intro name label found
    obtain ⟨image, foundImage, signed, maps⟩ := redefined label (mem_of_find? found)
    rw [name_of_find? found] at foundImage
    exact ⟨image, foundImage, signed, redirectsBody_of_maps wellFormed valid growth closed soundLater
      replaced unreplaced (mem_of_find? found) maps⟩

end Redirecting

end Program

end CpsGraph
