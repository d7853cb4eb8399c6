import CpsGraph.Proofs.DirectEvaluation

/-! # Related outcomes

Two steps have related outcomes if both succeed with related results or both fail with related
errors. Where it is tolerated, the second one may also be stuck: it fails although the first one
succeeds. Sequencing keeps outcomes related, so a computation is related to another one as soon as
their steps are.
-/

namespace CpsGraph

/-- Whether an error does not name a continuation. -/
def EvalError.isNameless : EvalError → Bool
  | .unboundParameter .. | .argumentCount .. => false
  | _ => true

/-- A step fails only with errors that do not name a continuation. -/
def Nameless {α : Type} (step : Except EvalError α) : Prop :=
  ∀ error, step = .error error → error.isNameless = true

/-- Which failures go together, and with which errors the second step may be stuck. Nothing more is
asked of the first step once the second is stuck. -/
structure Tolerance where
  Fails : EvalError → EvalError → Prop
  Stuck : EvalError → Prop
  fails_of_stuck : ∀ first {second}, Stuck second → Fails first second
  fails_same : ∀ error : EvalError, error.isNameless = true → Fails error error

/-- Both steps succeed with related results, both fail together, or the second one is stuck. -/
inductive Outcome (tolerance : Tolerance) {α β : Type} (Related : α → β → Prop) :
    Except EvalError α → Except EvalError β → Prop
  | ok {first : α} {second : β} (related : Related first second) :
      Outcome tolerance Related (.ok first) (.ok second)
  | fail {first second : EvalError} (fails : tolerance.Fails first second) :
      Outcome tolerance Related (.error first) (.error second)
  | stuck {first : α} {second : EvalError} (stuck : tolerance.Stuck second) :
      Outcome tolerance Related (.ok first) (.error second)

namespace Outcome

variable {tolerance : Tolerance} {α β γ δ : Type} {Related : α → β → Prop} {Next : γ → δ → Prop}

theorem bind {first : Except EvalError α} {second : Except EvalError β}
    {firstNext : α → Except EvalError γ} {secondNext : β → Except EvalError δ}
    (outcome : Outcome tolerance Related first second)
    (next : ∀ left right, Related left right →
      Outcome tolerance Next (firstNext left) (secondNext right)) :
    Outcome tolerance Next (first >>= firstNext) (second >>= secondNext) := by
  cases outcome with
  | ok related => exact next _ _ related
  | fail fails => exact .fail fails
  | @stuck left error stuck =>
    change Outcome tolerance Next (firstNext left) (.error error)
    cases firstNext left with
    | error other => exact .fail (tolerance.fails_of_stuck other stuck)
    | ok result => exact .stuck stuck

theorem imp {Weaker : α → β → Prop} {first : Except EvalError α} {second : Except EvalError β}
    (outcome : Outcome tolerance Related first second)
    (weaker : ∀ left right, Related left right → Weaker left right) :
    Outcome tolerance Weaker first second := by
  cases outcome with
  | ok related => exact .ok (weaker _ _ related)
  | fail fails => exact .fail fails
  | stuck stuck => exact .stuck stuck

/-- Treating related elements one after the other gives related results. -/
theorem mapM {Element : γ → δ → Prop} {firsts : List γ} {seconds : List δ}
    {firstAct : γ → Except EvalError α} {secondAct : δ → Except EvalError β}
    (elements : List.Forall₂ Element firsts seconds)
    (each : ∀ first second, first ∈ firsts → second ∈ seconds → Element first second →
      Outcome tolerance Related (firstAct first) (secondAct second)) :
    Outcome tolerance (List.Forall₂ Related) (firsts.mapM firstAct) (seconds.mapM secondAct) := by
  induction elements with
  | nil => exact .ok .nil
  | cons here _ ih =>
    rw [List.mapM_cons, List.mapM_cons]
    refine (each _ _ List.mem_cons_self List.mem_cons_self here).bind fun left right related => ?_
    refine (ih fun first second inFirsts inSeconds => each first second
      (List.mem_cons_of_mem _ inFirsts) (List.mem_cons_of_mem _ inSeconds)).bind
        fun lefts rights rest => ?_
    exact .ok (.cons related rest)

/-- A step whose errors name no continuation has the same outcome as itself. -/
theorem same {step : Except EvalError α} (nameless : Nameless step) :
    Outcome tolerance Eq step step := by
  cases step with
  | ok value => exact .ok rfl
  | error error => exact .fail (tolerance.fails_same error (nameless error rfl))

end Outcome

namespace Nameless

theorem ok {α : Type} (value : α) : Nameless (.ok value : Except EvalError α) := nofun

theorem error {α : Type} {error : EvalError} (nameless : error.isNameless = true) :
    Nameless (.error error : Except EvalError α) := by
  rintro _ ⟨⟩
  exact nameless

theorem bind {α β : Type} {first : Except EvalError α} {second : α → Except EvalError β}
    (nameless : Nameless first) (next : ∀ value, Nameless (second value)) :
    Nameless (first >>= second) := by
  cases first with
  | error failure => exact error (nameless failure rfl)
  | ok value => exact next value

theorem asInt (literal : Literal) : Nameless literal.asInt := by
  cases literal with
  | int => exact ok _
  | _ => exact error rfl

theorem asBool (literal : Literal) : Nameless literal.asBool := by
  cases literal with
  | bool => exact ok _
  | _ => exact error rfl

theorem cast (literal : Literal) (ty : Ty) : Nameless (literal.cast ty) := by
  cases literal with
  | bottom => exact error rfl
  | int value =>
    cases ty with
    | bool => exact ok _
    | _ => exact error rfl
  | bool value =>
    cases ty with
    | int => exact ok _
    | _ => exact error rfl

/-- Operators do not name continuations in their errors. -/
theorem evaluate (op : Operator) (literals : List Literal) : Nameless (op.evaluate literals) := by
  unfold Operator.evaluate
  split
  -- Division and remainder, then conjunction, disjunction and negation; the rest is arithmetic.
  case h_4 | h_5 =>
    refine (asInt _).bind fun _ => (asInt _).bind fun _ => ?_
    split_ifs
    · exact error rfl
    · exact ok _
  case h_6 =>
    refine (asBool _).bind fun _ => ?_
    split_ifs
    · exact (asBool _).bind fun _ => ok _
    · exact ok _
  case h_7 =>
    refine (asBool _).bind fun _ => ?_
    split_ifs
    · exact ok _
    · exact (asBool _).bind fun _ => ok _
  case h_8 => exact (asBool _).bind fun _ => ok _
  case h_12 => exact error rfl
  all_goals exact (asInt _).bind fun _ => (asInt _).bind fun _ => ok _

end Nameless

end CpsGraph
