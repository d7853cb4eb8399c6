import CpsGraph.Builder

/-! # Sample programs

Small programs that compute factorials and powers, and one whose expressions share their parts so
heavily that a tree would not fit. The variants with a return label have a label `ret` on which a
run can halt.
-/

namespace CpsGraph.Samples

open Build

/-- The factorial by a loop:

* `fac(n, ret)` branches on `n <= 0` to `then` or `else`;
* `then` is `ret(1)`, and `else` is `head(2, 1)`;
* `head(i, r)` branches on `i <= n` to `body` or `next`;
* `body` is `head(i + 1, i * r)`, and `next` is `ret(r)`. -/
def factorialSteps : BuildM Unit := do
  let n ← parameter "fac" 0
  let ret ← parameter "fac" 1
  let base ← int 0
  let isBase ← primitive .lessEq [n, base]
  let thenCase ← reference "then"
  let elseCase ← reference "else"
  let _ ← define "fac" [.int, .fn [.int]] (← branch isBase thenCase elseCase) true
  let one ← int 1
  let _ ← define "then" [] (← call ret [one])
  let head ← reference "head"
  let two ← int 2
  let _ ← define "else" [] (← call head [two, one])
  let i ← parameter "head" 0
  let r ← parameter "head" 1
  let goesOn ← primitive .lessEq [i, n]
  let body ← reference "body"
  let next ← reference "next"
  let _ ← define "head" [.int, .int] (← branch goesOn body next)
  let iNext ← primitive .add [i, one]
  let rNext ← primitive .mul [i, r]
  let _ ← define "body" [] (← call head [iNext, rNext])
  let _ ← define "next" [] (← call ret [r])

/-- The factorial by a tail-recursive helper:

* `fac(n, ret)` branches on `n <= 1` to `then` or `else`;
* `then` is `ret(1)`, and `else` is `help(1, 1, n, ret)`;
* `help(i, r, m, k)` branches on `i <= m` to `then2` or `else2`;
* `then2` is `help(i + 1, i * r, m, k)`, and `else2` is `k(r)`. -/
def tailFactorialSteps : BuildM Unit := do
  let n ← parameter "fac" 0
  let ret ← parameter "fac" 1
  let one ← int 1
  let isBase ← primitive .lessEq [n, one]
  let thenCase ← reference "then"
  let elseCase ← reference "else"
  let _ ← define "fac" [.int, .fn [.int]] (← branch isBase thenCase elseCase) true
  let _ ← define "then" [] (← call ret [one])
  let help ← reference "help"
  let _ ← define "else" [] (← call help [one, one, n, ret])
  let i ← parameter "help" 0
  let r ← parameter "help" 1
  let m ← parameter "help" 2
  let k ← parameter "help" 3
  let goesOn ← primitive .lessEq [i, m]
  let again ← reference "then2"
  let done ← reference "else2"
  let _ ← define "help" [.int, .int, .int, .fn [.int]] (← branch goesOn again done)
  let iNext ← primitive .add [i, one]
  let rNext ← primitive .mul [i, r]
  let _ ← define "then2" [] (← call help [iNext, rNext, m, k])
  let _ ← define "else2" [] (← call k [r])

/-- A power by a loop, called with the exponent three for the smaller of two numbers:

* `f(x, y, ret)` branches on `x < y` to `calcx` or `calcy`;
* `pow(a, b)` branches on `b == 0` to `then` or `else`;
* `then` is `ret(1)`, and `else` is `head(1, a)`;
* `head(i, r)` branches on `i < b` to `body` or `next`;
* `body` is `head(i + 1, r * a)`, and `next` is `ret(r)`;
* `calcx` is `pow(x, 3)`, and `calcy` is `pow(y, 3)`. -/
def powerSteps : BuildM Unit := do
  let x ← parameter "f" 0
  let y ← parameter "f" 1
  let ret ← parameter "f" 2
  let isLess ← primitive .less [x, y]
  let calcx ← reference "calcx"
  let calcy ← reference "calcy"
  let _ ← define "f" [.int, .int, .fn [.int]] (← branch isLess calcx calcy) true
  let a ← parameter "pow" 0
  let b ← parameter "pow" 1
  let base ← int 0
  let isBase ← primitive .equal [b, base]
  let thenCase ← reference "then"
  let elseCase ← reference "else"
  let _ ← define "pow" [.int, .int] (← branch isBase thenCase elseCase)
  let one ← int 1
  let _ ← define "then" [] (← call ret [one])
  let head ← reference "head"
  let _ ← define "else" [] (← call head [one, a])
  let i ← parameter "head" 0
  let r ← parameter "head" 1
  let goesOn ← primitive .less [i, b]
  let body ← reference "body"
  let next ← reference "next"
  let _ ← define "head" [.int, .int] (← branch goesOn body next)
  let iNext ← primitive .add [i, one]
  let rNext ← primitive .mul [r, a]
  let _ ← define "body" [] (← call head [iNext, rNext])
  let _ ← define "next" [] (← call ret [r])
  let pow ← reference "pow"
  let three ← int 3
  let _ ← define "calcx" [] (← call pow [x, three])
  let _ ← define "calcy" [] (← call pow [y, three])

/-- Add the label `ret : fn(int) = ret(ret.args[0])`. -/
def returnSteps : BuildM Unit := do
  let ret ← reference "ret"
  let value ← parameter "ret" 0
  let _ ← define "ret" [.int] (← call ret [value])

/-- Square an expression several times. -/
def squareSteps : (times : Nat) → Handle → BuildM Handle
  | 0, x => return x
  | times + 1, x => do squareSteps times (← primitive .mul [x, x])

/-- The label `f(x, k)` that calls `k` with `x` squared `depth` times. Each square has one operand
twice, so as a tree the argument has `2 ^ depth` leaves. -/
def squaringChain (depth : Nat) : Except GraphError Program :=
  Build.run do
    let x ← parameter "f" 0
    let square ← squareSteps depth x
    let k ← parameter "f" 1
    let _ ← define "f" [.int, .fn [.int]] (← call k [square]) true

/-- The factorial by a loop. -/
def factorial : Except GraphError Program := Build.run factorialSteps

/-- The factorial by a loop, with a return label. -/
def factorialWithReturn : Except GraphError Program :=
  Build.run do
    factorialSteps
    returnSteps

/-- The factorial by a tail-recursive helper. -/
def tailFactorial : Except GraphError Program := Build.run tailFactorialSteps

/-- The factorial by a tail-recursive helper, with a return label. -/
def tailFactorialWithReturn : Except GraphError Program :=
  Build.run do
    tailFactorialSteps
    returnSteps

/-- The power by a loop. -/
def power : Except GraphError Program := Build.run powerSteps

/-- The power by a loop, with a return label. -/
def powerWithReturn : Except GraphError Program :=
  Build.run do
    powerSteps
    returnSteps

end CpsGraph.Samples
