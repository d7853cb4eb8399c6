import CpsGraph.Proofs.RedirectedCalls
import CpsGraph.Proofs.TypeChecking
import CpsGraph.Samples

/-! # Redirecting changes the call sites and nothing else

In a well-typed program the calls of a label are bodies of labels, and redirecting them gives a
program with the same labels in the same order. A label whose body calls the old label now calls the
new one with the selected arguments, and every other label is the same label as before. Since all
labels keep their signatures, expressions keep their types. So the only thing that can go wrong is
the type of a redirected call, and there the selected arguments have the selected types.
-/

namespace CpsGraph.Program

variable {program redirected : Program} {oldName newName : Name} {old new label image : Label}
  {mapping : List Nat} {arguments selected : List Handle} {handle : Handle}

/-- The body of a label is a call of another one with the given arguments. -/
def Calls (program : Program) (label callee : Label) (arguments : List Handle) : Prop :=
  program.table.get? label.body = some (.call callee.abstraction arguments)

instance (program : Program) (label callee : Label) (arguments : List Handle) :
    Decidable (program.Calls label callee arguments) :=
  inferInstanceAs (Decidable (_ = _))

/-- What becomes of a label: it keeps its name, its signature and its mark. If it calls the old label
then it calls the new one with the selected arguments, and otherwise it is the same. -/
structure RedirectsLabel (program redirected : Program) (old new : Label) (mapping : List Nat)
    (label image : Label) : Prop where
  name : image.name = label.name
  signature : image.signature = label.signature
  external : image.external = label.external
  redirects : ∀ arguments, program.Calls label old arguments →
    ∃ selected, Selects mapping arguments selected ∧ redirected.Calls image new selected
  keeps : (∀ arguments, ¬ program.Calls label old arguments) → image = label

namespace Redirected

section Labels

variable (wellFormed : program.WellFormed) (built : program.Redirected redirected old new mapping)

include wellFormed built

/-- A label with the name of another one is what became of it. -/
theorem redirectsLabel (isLabel : label ∈ program.labels) (isImage : image ∈ redirected.labels)
    (sameInterface : image.interface = label.interface) :
    program.RedirectsLabel redirected old new mapping label image := by
  obtain ⟨sameName, sameSignature, sameExternal⟩ :
      image.name = label.name ∧ image.signature = label.signature ∧
        image.external = label.external := by
    simpa only [Label.interface, Prod.mk.injEq] using sameInterface
  obtain ⟨_, foundImage, -, body⟩ :=
    built.labels _ label (find?_of_mem wellFormed.names isLabel)
  rw [← sameName, find?_of_mem built.wellFormed.names isImage] at foundImage
  cases foundImage
  generalize atBody : image.body = imageBody at body
  refine ⟨sameName, sameSignature, sameExternal, fun arguments calls => ?_, fun noCall => ?_⟩
  · cases body with
    | replaced present selects imagePresent =>
      rw [calls] at present
      cases present
      rw [← atBody] at imagePresent
      exact ⟨_, selectArguments_eq_ok_iff.mp selects, imagePresent⟩
    | kept other => exact absurd calls (other arguments)
  · cases body with
    | replaced present => exact absurd present (noCall _)
    | kept =>
      have registered := (wellFormed.labels label isLabel).mono built.growth
      exact registered.eq_of_interface (built.wellFormed.labels image isImage)
        built.wellFormed.table sameInterface atBody

/-- The labels are redirected one by one, in their order. -/
theorem redirectsLabels : List.Forall₂ (program.RedirectsLabel redirected old new mapping)
    program.labels redirected.labels := by
  have interfaces := built.interfaces
  rw [← List.forall₂_eq_eq_eq, List.forall₂_map_left_iff, List.forall₂_map_right_iff] at interfaces
  refine Results.forall₂_of_common interfaces (List.forall₂_same.mpr fun _ _ => rfl) ?_
  rintro image label _ isImage isLabel sameInterface rfl
  exact redirectsLabel wellFormed built isLabel isImage sameInterface

end Labels

theorem signatures (built : program.Redirected redirected old new mapping) (name : Name)
    (label : Label) (found : program.find? name = some label) :
    ∃ image, redirected.find? name = some image ∧ image.signature = label.signature := by
  obtain ⟨image, foundImage, signed, -⟩ := built.labels name label found
  exact ⟨image, foundImage, signed⟩

section Types

variable (wellFormed : program.WellFormed) (typed : program.Typed)
  (foundOld : program.find? oldName = some old) (foundNew : program.find? newName = some new)
  (built : program.Redirected redirected old new mapping)

include wellFormed foundNew built

theorem hasTy_new : redirected.HasTy new.abstraction (.fn new.signature) := by
  have present := (wellFormed.registered foundNew).abstraction
  rw [name_of_find? foundNew] at present
  exact (HasTy.abstraction present foundNew).grow built.growth built.signatures

/-- A redirected call is well typed if the signature is selected as the arguments are. -/
theorem bodyTyped_call_iff (argumentTy : List.Forall₂ program.HasTy arguments old.signature)
    (selects : Selects mapping arguments selected) :
    redirected.BodyTyped (.call new.abstraction selected) ↔
      Selects mapping old.signature new.signature := by
  have newTy := hasTy_new wellFormed foundNew built
  have argumentTy : List.Forall₂ redirected.HasTy arguments old.signature :=
    argumentTy.imp fun _ _ hasTy => hasTy.grow built.growth built.signatures
  constructor
  · intro bodyTyped
    cases bodyTyped with
    | call calleeTy selectedTy =>
      cases Ty.fn.inj (calleeTy.unique newTy)
      exact selects.of_forall₂ argumentTy selectedTy fun _ _ _ => HasTy.unique
  · intro selectsTypes
    exact .call newTy (selects.forall₂ selectsTypes argumentTy)

include typed foundOld

omit foundNew in
/-- What becomes of a well-typed body: a redirected call, or the same body. -/
theorem exists_body (isImage : image ∈ redirected.labels) :
    (∃ label ∈ program.labels, ∃ arguments selected, program.Calls label old arguments ∧
      List.Forall₂ program.HasTy arguments old.signature ∧ Selects mapping arguments selected ∧
      redirected.Calls image new selected) ∨
    ∃ body, program.table.get? image.body = some body ∧ program.BodyTyped body ∧
      ∀ arguments, body ≠ .call old.abstraction arguments := by
  obtain ⟨label, isLabel, redirects⟩ :=
    Results.exists_left_of_mem (redirectsLabels wellFormed built) isImage
  by_cases calling : ∃ arguments, program.Calls label old arguments
  · obtain ⟨arguments, calls⟩ := calling
    obtain ⟨selected, selects, imageCalls⟩ := redirects.redirects arguments calls
    exact .inl ⟨label, isLabel, arguments, selected, calls,
      typed.arguments_hasTy wellFormed foundOld isLabel calls, selects, imageCalls⟩
  · obtain rfl := redirects.keeps (not_exists.mp calling)
    obtain ⟨body, present, bodyTyped⟩ := typed image isLabel
    refine .inr ⟨body, present, bodyTyped, ?_⟩
    rintro arguments rfl
    exact calling ⟨arguments, present⟩

/-- Redirected programs are well typed if there is nothing to redirect, or if the signature is
selected as the arguments are. -/
theorem typed_iff : redirected.Typed ↔
    (∀ label ∈ program.labels, ∀ arguments, ¬ program.Calls label old arguments) ∨
      Selects mapping old.signature new.signature := by
  constructor
  · intro typedRedirected
    refine or_iff_not_imp_left.mpr fun calling => ?_
    push Not at calling
    obtain ⟨label, isLabel, arguments, calls⟩ := calling
    obtain ⟨image, isImage, redirects⟩ :=
      Results.exists_right_of_mem (redirectsLabels wellFormed built) isLabel
    obtain ⟨selected, selects, imageCalls⟩ := redirects.redirects arguments calls
    obtain ⟨body, present, bodyTyped⟩ := typedRedirected image isImage
    rw [imageCalls] at present
    cases present
    exact (bodyTyped_call_iff wellFormed foundNew built
      (typed.arguments_hasTy wellFormed foundOld isLabel calls) selects).mp bodyTyped
  · intro either image isImage
    rcases exists_body wellFormed typed foundOld built isImage with
      ⟨label, isLabel, arguments, selected, calls, argumentTy, selects, imageCalls⟩ |
      ⟨body, present, bodyTyped, -⟩
    · have selectsTypes := either.resolve_left fun none => none label isLabel arguments calls
      exact ⟨_, imageCalls,
        (bodyTyped_call_iff wellFormed foundNew built argumentTy selects).mpr selectsTypes⟩
    · exact ⟨body, built.growth present, bodyTyped.grow built.growth built.signatures⟩

/-- A redirected program is valid, even if its types do not fit. -/
theorem valid : redirected.Valid := by
  intro image isImage
  rcases exists_body wellFormed typed foundOld built isImage with
    ⟨-, -, arguments, selected, -, argumentTy, selects, imageCalls⟩ | ⟨body, present, bodyTyped, -⟩
  · have newTy := hasTy_new wellFormed foundNew built
    refine ⟨_, imageCalls, .call (newTy.expression built.wellFormed) fun argument inside => ?_⟩
    obtain ⟨ty, -, hasTy⟩ := Results.exists_right_of_mem argumentTy (selects.subset inside)
    exact (hasTy.grow built.growth built.signatures).expression built.wellFormed
  · have bodyTyped := bodyTyped.grow built.growth built.signatures
    exact ⟨body, built.growth present, bodyTyped.validBody built.wellFormed⟩

/-- No call of the old label can be reached any more. -/
theorem not_call_of_reachable (differ : oldName ≠ newName) (reachable : redirected.Reachable handle) :
    redirected.table.get? handle ≠ some (.call old.abstraction arguments) := by
  intro present
  have valid := valid wellFormed typed foundOld foundNew built
  obtain ⟨image, isImage, rfl⟩ :=
    (reachable.reached built.wellFormed).exists_body built.wellFormed valid present
  rcases exists_body wellFormed typed foundOld built isImage with
    ⟨-, -, -, selected, -, -, -, imageCalls⟩ | ⟨body, kept, -, noCall⟩
  · rw [Calls, present] at imageCalls
    have same : old.abstraction = new.abstraction := (Node.call.inj (Option.some_inj.mp imageCalls)).1
    rw [(wellFormed.registered foundNew).eq_abstraction_iff wellFormed.table,
      (wellFormed.registered foundOld).abstraction, Option.some_inj, Node.abstraction.injEq,
      name_of_find? foundOld, name_of_find? foundNew] at same
    exact differ same
  · rw [built.growth kept] at present
    exact noCall arguments (Option.some_inj.mp present)

end Types

end Redirected

/-- Redirecting the calls of a label succeeds in a well-typed program and rewrites its call sites
only. The result is well typed exactly if there are no call sites or the new label takes what is
selected of the parameters of the old one. -/
theorem redirectCalls_exact (wellFormed : program.WellFormed) (checked : program.typeCheck = .ok ())
    (foundOld : program.find? oldName = some old) (foundNew : program.find? newName = some new)
    (inRange : ∀ index ∈ mapping, index < old.arity) :
    ∃ redirected, program.redirectCalls oldName newName mapping = .ok redirected ∧
      redirected.WellFormed ∧ redirected.table.Extends program.table ∧
      List.Forall₂ (program.RedirectsLabel redirected old new mapping)
        program.labels redirected.labels ∧
      (oldName ≠ newName → ∀ handle arguments, redirected.Reachable handle →
        redirected.table.get? handle ≠ some (.call old.abstraction arguments)) ∧
      (redirected.typeCheck = .ok () ↔
        (∀ label ∈ program.labels, ∀ arguments, ¬ program.Calls label old arguments) ∨
          Selects mapping old.signature new.signature) := by
  have typed := typed_of_typeCheck checked
  obtain ⟨redirected, success, built⟩ := exists_redirectCalls wellFormed (typed.valid wellFormed)
    foundOld foundNew inRange fun label member arguments =>
      typed.length_arguments wellFormed foundOld member
  refine ⟨redirected, success, built.wellFormed, built.growth, built.redirectsLabels wellFormed,
    fun differ handle arguments reachable => ?_, ?_⟩
  · exact Redirected.not_call_of_reachable wellFormed typed foundOld foundNew built differ reachable
  · rw [typeCheck_eq_ok_iff built.wellFormed]
    exact Redirected.typed_iff wellFormed typed foundOld foundNew built

/-- In the power program, the calls of `pow` can be redirected to the loop head with the arguments
swapped, and the result is well typed. Redirected to `ret`, which takes one number only, with both
arguments they are redirected all the same, and the result is not well typed. -/
theorem redirectCalls_exact_power :
    let program := Samples.powerWithReturn.toOption.getD {}
    let label := fun name => (program.find? name).getD default
    program.WellFormed ∧ program.typeCheck = .ok () ∧ (label "pow").arity = 2 ∧
    (∃ redirected, program.redirectCalls "pow" "head" [1, 0] = .ok redirected ∧
      redirected.typeCheck = .ok () ∧ ∃ image ∈ redirected.labels, image.name = "calcx" ∧
        ∃ x three, program.Calls (label "calcx") (label "pow") [x, three] ∧
          redirected.Calls image (label "head") [three, x]) ∧
    ∃ redirected, program.redirectCalls "pow" "ret" [0, 1] = .ok redirected ∧
      redirected.typeCheck ≠ .ok () ∧ ∀ handle arguments, redirected.Reachable handle →
        redirected.table.get? handle ≠ some (.call (label "pow").abstraction arguments) := by
  intro program label
  obtain ⟨wellFormed, checked, foundPow, foundHead, foundRet, arity, isLabel, named, calls, fits,
      misfits⟩ :
      program.WellFormed ∧ program.typeCheck = .ok () ∧ program.find? "pow" = some (label "pow") ∧
      program.find? "head" = some (label "head") ∧ program.find? "ret" = some (label "ret") ∧
      (label "pow").arity = 2 ∧ label "calcx" ∈ program.labels ∧ (label "calcx").name = "calcx" ∧
      program.Calls (label "calcx") (label "pow") [0, 37] ∧
      Selects [1, 0] (label "pow").signature (label "head").signature ∧
      ¬ Selects [0, 1] (label "pow").signature (label "ret").signature := by decide +kernel
  refine ⟨wellFormed, checked, arity, ?_, ?_⟩
  · have inRange : ∀ index ∈ [1, 0], index < (label "pow").arity := by
      rw [arity]
      decide
    obtain ⟨redirected, success, -, -, labels, -, typed⟩ :=
      redirectCalls_exact wellFormed checked foundPow foundHead inRange
    obtain ⟨image, isImage, redirects⟩ := Results.exists_right_of_mem labels isLabel
    obtain ⟨selected, selects, imageCalls⟩ := redirects.redirects [0, 37] calls
    have swapped : selected = [37, 0] :=
      List.map_injective_iff.mpr (fun _ _ => Option.some.inj) selects
    exact ⟨redirected, success, typed.mpr (.inr fits), image, isImage, redirects.name.trans named,
      0, 37, calls, swapped ▸ imageCalls⟩
  · have inRange : ∀ index ∈ [0, 1], index < (label "pow").arity := by
      rw [arity]
      decide
    obtain ⟨redirected, success, -, -, -, unreachable, typed⟩ :=
      redirectCalls_exact wellFormed checked foundPow foundRet inRange
    refine ⟨redirected, success, fun checkedAgain => ?_, unreachable (by decide)⟩
    exact (typed.mp checkedAgain).elim (fun none => none _ isLabel _ calls) misfits

end CpsGraph.Program
