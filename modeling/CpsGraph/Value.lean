import CpsGraph.Operator.Evaluate

/-! # Values

A value is a literal or a closure: the name of a continuation with the environment in which the
closure was made. An environment gives the arguments with which continuations were last entered. It
is kept sorted by name, so two environments are equal if and only if they give the same arguments.
-/

namespace CpsGraph

/-- A value at run time. -/
inductive Value where
  | literal (value : Literal)
  | closure (continuation : Name) (environment : List (Name × List Value))
deriving Repr, Inhabited

/-- The arguments with which continuations were last entered, sorted by name. -/
abbrev Env := List (Name × List Value)

namespace Value

mutual

/-- Equality of values is decidable. -/
protected def decEq : (a b : Value) → Decidable (a = b)
  | .literal a, .literal b =>
    match decEq a b with
    | isTrue same => isTrue (by rw [same])
    | isFalse differ => isFalse (by simpa using differ)
  | .closure c e, .closure d f =>
    match decEq c d, Value.decEqEnv e f with
    | isTrue sameName, isTrue sameEnv => isTrue (by rw [sameName, sameEnv])
    | isFalse differ, _ => isFalse (by simp [differ])
    | _, isFalse differ => isFalse (by simp [differ])
  | .literal _, .closure _ _ => isFalse nofun
  | .closure _ _, .literal _ => isFalse nofun

/-- Equality of argument lists is decidable. -/
protected def decEqList : (as bs : List Value) → Decidable (as = bs)
  | [], [] => isTrue rfl
  | [], _ :: _ => isFalse nofun
  | _ :: _, [] => isFalse nofun
  | a :: as, b :: bs =>
    match Value.decEq a b, Value.decEqList as bs with
    | isTrue sameHead, isTrue sameTail => isTrue (by rw [sameHead, sameTail])
    | isFalse differ, _ => isFalse (by simp [differ])
    | _, isFalse differ => isFalse (by simp [differ])

/-- Equality of bindings is decidable. -/
protected def decEqBinding : (a b : Name × List Value) → Decidable (a = b)
  | (m, as), (n, bs) =>
    match decEq m n, Value.decEqList as bs with
    | isTrue sameName, isTrue sameList => isTrue (by rw [sameName, sameList])
    | isFalse differ, _ => isFalse (by simp [differ])
    | _, isFalse differ => isFalse (by simp [differ])

/-- Equality of environments is decidable. -/
protected def decEqEnv : (e f : List (Name × List Value)) → Decidable (e = f)
  | [], [] => isTrue rfl
  | [], _ :: _ => isFalse nofun
  | _ :: _, [] => isFalse nofun
  | a :: e, b :: f =>
    match Value.decEqBinding a b, Value.decEqEnv e f with
    | isTrue sameHead, isTrue sameTail => isTrue (by rw [sameHead, sameTail])
    | isFalse differ, _ => isFalse (by simp [differ])
    | _, isFalse differ => isFalse (by simp [differ])

end

instance : DecidableEq Value := Value.decEq

/-- The literal that a value is. -/
def asLiteral : Value → Except EvalError Literal
  | .literal value => .ok value
  | .closure .. => .error .notALiteral

/-- The continuation and the environment of a closure. -/
def asClosure : Value → Except EvalError (Name × Env)
  | .literal value => .error (.notAClosure value)
  | .closure continuation environment => .ok (continuation, environment)

/-- The integer that a value is. -/
def int? : Value → Option Int64
  | .literal value => value.int?
  | .closure .. => none

/-- The printed form of a value. A closure does not show its environment. -/
def render : Value → String
  | .literal value => value.render
  | .closure continuation _ => s!"<closure {continuation}>"

end Value

namespace Env

/-- The arguments with which a continuation was last entered. -/
def get? (env : Env) (name : Name) : Option (List Value) := env.lookup name

/-- Remember the arguments with which a continuation is entered. -/
def set : Env → Name → List Value → Env
  | [], name, arguments => [(name, arguments)]
  | (other, bound) :: rest, name, arguments =>
    if name = other then (name, arguments) :: rest
    else if name < other then (name, arguments) :: (other, bound) :: rest
    else (other, bound) :: set rest name arguments

theorem get?_set (env : Env) (name : Name) (arguments : List Value) (other : Name) :
    (env.set name arguments).get? other =
      if other = name then some arguments else env.get? other := by
  fun_induction set env name arguments <;> grind [get?]

end Env

end CpsGraph
