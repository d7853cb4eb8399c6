import CpsGraph.Proofs.Outcomes
import CpsGraph.Proofs.SpecializedPrograms

/-! # Fixed arguments

Some parameters of a label are fixed at literals, and the others are still passed, in their order.
A list with one element for each parameter is filled from a list for those that are passed: at a
fixed parameter it has what stands for the literal. Evaluating the arguments of a call fills the
values in the same way.
-/

namespace CpsGraph

/-- For each parameter of a label, the literal at which it is fixed, or none if it is passed. -/
abbrev Fixing := List (Option Literal)

namespace Fixing

variable {α β γ δ : Type}

/-- Of a list with one element for each parameter, those at parameters that are passed. -/
def remaining : Fixing → List α → List α
  | none :: fixing, element :: elements => element :: remaining fixing elements
  | some _ :: fixing, _ :: elements => remaining fixing elements
  | _, _ => []

/-- The positions of the parameters that are passed. -/
def positions (fixing : Fixing) : List Nat := fixing.remaining (List.range fixing.length)

/-- What each parameter stands for, when the parameters that are passed are numbered from `next`. -/
def planFrom (next : Nat) : Fixing → List Argument
  | [] => []
  | none :: fixing => .passed next :: planFrom (next + 1) fixing
  | some literal :: fixing => .fixed literal :: planFrom next fixing

/-- What each parameter stands for. -/
def plan (fixing : Fixing) : List Argument := fixing.planFrom 0

/-- The first list has one element for each parameter: at a fixed parameter it is in `Fixed` with
the literal, and the others are in `Passed` with the elements of the second list. -/
inductive Fills (Passed : α → β → Prop) (Fixed : α → Literal → Prop) :
    Fixing → List α → List β → Prop
  | nil : Fills Passed Fixed [] [] []
  | fixed {literal : Literal} {fixing : Fixing} {element : α} {elements : List α} {rest : List β}
      (fixed : Fixed element literal) (fills : Fills Passed Fixed fixing elements rest) :
      Fills Passed Fixed (some literal :: fixing) (element :: elements) rest
  | passed {fixing : Fixing} {element : α} {image : β} {elements : List α} {rest : List β}
      (passed : Passed element image) (fills : Fills Passed Fixed fixing elements rest) :
      Fills Passed Fixed (none :: fixing) (element :: elements) (image :: rest)

theorem length_planFrom (next : Nat) (fixing : Fixing) :
    (fixing.planFrom next).length = fixing.length := by
  induction fixing generalizing next with
  | nil => rfl
  | cons first fixing ih =>
    cases first with
    | none => exact congrArg (· + 1) (ih (next + 1))
    | some literal => exact congrArg (· + 1) (ih next)

theorem getElem?_planFrom (next : Nat) {fixing : Fixing} {index : Nat} {literal : Literal}
    (atIndex : fixing[index]? = some (some literal)) :
    (fixing.planFrom next)[index]? = some (.fixed literal) := by
  induction fixing generalizing next index with
  | nil => cases atIndex
  | cons first fixing ih =>
    cases index with
    | zero =>
      cases atIndex
      rfl
    | succ index =>
      cases first with
      | none => exact ih (next + 1) atIndex
      | some _ => exact ih next atIndex

/-- What remains is in its order. -/
theorem remaining_sublist (fixing : Fixing) (elements : List α) :
    (fixing.remaining elements).Sublist elements := by
  induction fixing generalizing elements with
  | nil => exact List.nil_sublist elements
  | cons first fixing ih =>
    cases elements with
    | nil => cases first <;> exact .slnil
    | cons element elements =>
      cases first with
      | none => exact (ih elements).cons_cons element
      | some literal => exact (ih elements).cons element

theorem lt_length_of_mem_positions {fixing : Fixing} {index : Nat}
    (member : index ∈ fixing.positions) : index < fixing.length :=
  List.mem_range.mp ((fixing.remaining_sublist _).mem member)

variable {Passed : α → β → Prop} {Fixed : α → Literal → Prop} {fixing : Fixing}
  {elements : List α} {images rest : List β}

/-- What remains of related lists is related. -/
theorem forall₂_remaining (related : List.Forall₂ Passed elements images) :
    List.Forall₂ Passed (fixing.remaining elements) (fixing.remaining images) := by
  induction related generalizing fixing with
  | nil => rcases fixing with _ | ⟨_ | _, _⟩ <;> exact .nil
  | cons here _ ih =>
    rcases fixing with _ | ⟨_ | literal, fixing⟩
    · exact .nil
    · exact .cons here ih
    · exact ih

/-- A list is filled from what remains of its images. -/
theorem fills_remaining (related : List.Forall₂ Passed elements images)
    (count : elements.length = fixing.length)
    (fixed : ∀ (index : Nat) literal element, fixing[index]? = some (some literal) →
      elements[index]? = some element → Fixed element literal) :
    Fills Passed Fixed fixing elements (fixing.remaining images) := by
  induction related generalizing fixing with
  | nil =>
    rw [List.eq_nil_of_length_eq_zero count.symm]
    exact .nil
  | @cons element _ _ _ here _ ih =>
    rcases fixing with _ | ⟨_ | literal, fixing⟩
    · cases count
    · exact .passed here (ih (Nat.succ.inj count) fun index => fixed (index + 1))
    · exact .fixed (fixed 0 literal element rfl rfl)
        (ih (Nat.succ.inj count) fun index => fixed (index + 1))

namespace Fills

theorem length_eq (fills : Fills Passed Fixed fixing elements rest) :
    elements.length = fixing.length := by
  induction fills with
  | nil => rfl
  | fixed _ _ ih | passed _ _ ih => exact congrArg (· + 1) ih

/-- As many elements are passed as remain of any list with one element for each parameter. -/
theorem length_rest (fills : Fills Passed Fixed fixing elements rest) {others : List γ}
    (count : others.length = fixing.length) : rest.length = (fixing.remaining others).length := by
  induction fills generalizing others with
  | nil => rfl
  | fixed _ _ ih =>
    rcases others with _ | ⟨other, others⟩
    · cases count
    · exact ih (Nat.succ.inj count)
  | passed _ _ ih =>
    rcases others with _ | ⟨other, others⟩
    · cases count
    · exact congrArg (· + 1) (ih (Nat.succ.inj count))

/-- A fixed parameter has what stands for its literal. -/
theorem exists_fixed (fills : Fills Passed Fixed fixing elements rest) {next index : Nat}
    {literal : Literal} (atIndex : (fixing.planFrom next)[index]? = some (.fixed literal)) :
    ∃ element, elements[index]? = some element ∧ Fixed element literal := by
  induction fills generalizing next index with
  | nil => cases atIndex
  | fixed here _ ih =>
    cases index with
    | zero =>
      cases atIndex
      exact ⟨_, rfl, here⟩
    | succ index => exact ih atIndex
  | passed _ _ ih =>
    cases index with
    | zero => cases atIndex
    | succ index => exact ih atIndex

/-- A parameter that is passed has what goes with the element at its number. -/
theorem exists_passed (fills : Fills Passed Fixed fixing elements rest) {next index target : Nat}
    (atIndex : (fixing.planFrom next)[index]? = some (.passed target)) :
    ∃ offset element image, target = next + offset ∧ elements[index]? = some element ∧
      rest[offset]? = some image ∧ Passed element image := by
  induction fills generalizing next index with
  | nil => cases atIndex
  | fixed _ _ ih =>
    cases index with
    | zero => cases atIndex
    | succ index => exact ih atIndex
  | passed here _ ih =>
    cases index with
    | zero =>
      cases atIndex
      exact ⟨0, _, _, rfl, rfl, rfl, here⟩
    | succ index =>
      obtain ⟨offset, element, image, same, atElement, atImage, passed⟩ := ih atIndex
      exact ⟨offset + 1, element, image, by omega, atElement, atImage, passed⟩

/-- Treating the elements one after the other fills the results. -/
theorem mapM {tolerance : Tolerance} {Related : γ → δ → Prop} {FixedResult : γ → Literal → Prop}
    {firstAct : α → Except EvalError γ} {secondAct : β → Except EvalError δ}
    (fills : Fills Passed Fixed fixing elements rest)
    (passed : ∀ element image, Passed element image →
      Outcome tolerance Related (firstAct element) (secondAct image))
    (fixed : ∀ element literal, Fixed element literal →
      ∃ result, firstAct element = .ok result ∧ FixedResult result literal) :
    Outcome tolerance (Fills Related FixedResult fixing) (elements.mapM firstAct)
      (rest.mapM secondAct) := by
  induction fills with
  | nil => exact .ok .nil
  | @fixed _ _ _ _ rest here _ ih =>
    obtain ⟨result, success, isFixed⟩ := fixed _ _ here
    rw [List.mapM_cons, success, ← bind_pure (rest.mapM secondAct)]
    exact ih.bind fun firsts seconds results => .ok (.fixed isFixed results)
  | passed here _ ih =>
    rw [List.mapM_cons, List.mapM_cons]
    refine (passed _ _ here).bind fun first second related => ?_
    refine ih.bind fun firsts seconds results => ?_
    exact .ok (.passed related results)

end Fills

/-- A parameter that is passed has the number of one of those that remain. -/
theorem lt_length_of_plan {index target : Nat} (count : elements.length = fixing.length)
    (atIndex : fixing.plan[index]? = some (.passed target)) :
    target < (fixing.remaining elements).length := by
  have fills : Fills (fun _ _ => True) (fun _ _ => True) fixing elements
      (fixing.remaining elements) :=
    fills_remaining (List.forall₂_same.mpr fun _ _ => trivial) count fun _ _ _ _ _ => trivial
  obtain ⟨offset, _, _, same, -, atOffset, -⟩ := fills.exists_passed atIndex
  rw [same, Nat.zero_add]
  exact (List.getElem?_eq_some_iff.mp atOffset).1

/-- Choosing the arguments that are passed leaves what remains. -/
theorem selectArguments_positions {arguments : List Handle}
    (count : arguments.length = fixing.length) :
    Program.selectArguments fixing.positions arguments = .ok (fixing.remaining arguments) := by
  have each : List.Forall₂ (fun index argument => arguments[index]? = some argument)
      (List.range fixing.length) arguments := by
    refine Results.forall₂_of_getElem? (by rw [List.length_range, count]) ?_
    intro index position argument atRange atIndex
    rw [List.getElem?_range (count ▸ (List.getElem?_eq_some_iff.mp atIndex).1)] at atRange
    rwa [← Option.some.inj atRange]
  refine Results.mapM_eq_ok_iff.mpr ((forall₂_remaining each).imp fun index argument atIndex => ?_)
  rw [atIndex]

end Fixing

end CpsGraph
