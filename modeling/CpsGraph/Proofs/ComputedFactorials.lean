import CpsGraph.Proofs.ListedPrograms
import CpsGraph.Proofs.RunPaths
import CpsGraph.Samples
import Mathlib.Data.Nat.Factorial.Basic
import Mathlib.Tactic.MkIffOfInductiveProp

/-! # The factorial programs compute factorials

Both factorial programs return at once for small numbers and otherwise count in a loop, from a first
factor up to the number, with the product so far. The loop is described once: a turn takes two steps,
and so does leaving it. Products wrap at 64 bits like the factorial itself, so the only things that can
go wrong are the counter and the number of steps. The counter passes every number but the largest, from
which it wraps to the smallest, and then the loop is never left. The steps can be counted up to the number
before, where one of the programs takes one more than any limit allows.
-/

namespace CpsGraph

/-- An integer as a value. -/
abbrev Value.number (value : Int64) : Value := .literal (.int value)

theorem Env.get?_set_other {env : Env} {name other : Name} {values : List Value}
    (bound : env.get? name = some values) (differs : name ≠ other) (arguments : List Value) :
    (env.set other arguments).get? name = some values := by
  rwa [Env.get?_set, if_neg differs]

namespace Program

variable {program : Program} {n : Int64} {config later : Configuration}

/-- Of the number whose factorial is computed only the largest has no successor. -/
theorem toNat_succ_lt (notLargest : n ≠ Int64.maxValue) : n.toInt.toNat + 1 < 2 ^ 63 := by
  have below := n.toInt_lt
  have differs : n.toInt ≠ 2 ^ 63 - 1 := fun same => notLargest (Int64.toInt_inj.mp same)
  omega

/-- A factorial with at least `64` factors two wraps to zero. -/
theorem ofNat_factorial_eq_zero {number : Nat} (large : 66 ≤ number) :
    Int64.ofNat number.factorial = 0 := by
  have divides : 2 ^ 64 ∣ (66).factorial := by decide +kernel
  obtain ⟨rest, product⟩ := divides.trans (Nat.factorial_dvd_factorial large)
  have wraps : Int64.ofNat (2 ^ 64) = 0 := by decide
  rw [product, Int64.ofNat_mul, wraps, Int64.zero_mul]

/-- A call of the factorial that returns to `ret`. -/
def called (n : Int64) : Configuration :=
  ⟨"fac", Env.set [] "fac" [.number n, .closure "ret" []]⟩

/-- A number is returned to `ret`. -/
def returned (result : Int64) : Configuration := ⟨"ret", Env.set [] "ret" [.number result]⟩

theorem returned_halts (result : Int64) : (returned result).name ∈ ["ret"] :=
  List.mem_singleton.mpr rfl

theorem halt_returned (result : Int64) (steps : Nat) :
    (returned result).halt steps = ⟨"ret", [.number result], steps⟩ := by
  simp [returned, Configuration.halt, Env.get?_set]

/-! ## Counting loops -/

/-- Configurations with a counter and a product. While the counter is at most `n`, two steps multiply
the product by it and count on; otherwise two steps return the product. -/
structure CountsTo (program : Program) (n : Int64) (At : Int64 → Int64 → Configuration → Prop) :
    Prop where
  turn : ∀ {counter product config}, At counter product config → counter ≤ n →
    ∃ next, program.Path ["ret"] 2 config next ∧ At (counter + 1) (counter * product) next
  leave : ∀ {counter product config}, At counter product config → ¬ counter ≤ n →
    program.Path ["ret"] 2 config (returned product)

namespace CountsTo

variable {At : Int64 → Int64 → Configuration → Prop} {counter product : Int64}

/-- A loop whose counter does not wrap multiplies all numbers up to the last. -/
theorem path_returned {last : Nat} (loop : program.CountsTo (.ofNat last) At)
    (fits : last + 1 < 2 ^ 63) (turns : Nat) {done : Nat} (left : done + turns = last)
    (begun : At (.ofNat (done + 1)) (.ofNat done.factorial) config) :
    program.Path ["ret"] (2 * turns + 2) config (returned (.ofNat last.factorial)) := by
  induction turns generalizing done config with
  | zero =>
    -- The counter has passed the last factor, which it can because it does not wrap there.
    obtain rfl : done = last := left
    refine loop.leave begun ?_
    rw [Int64.ofNat_le_iff_le fits (by omega)]
    omega
  | succ turns ih =>
    have counts : Int64.ofNat (done + 1) ≤ .ofNat last := by
      rw [Int64.ofNat_le_iff_le (by omega) (by omega)]
      omega
    obtain ⟨next, turned, continued⟩ := loop.turn begun counts
    have counter : Int64.ofNat (done + 1) + 1 = .ofNat (done + 1 + 1) :=
      (Int64.ofNat_add (done + 1) 1).symm
    have product : Int64.ofNat (done + 1) * .ofNat done.factorial = .ofNat (done + 1).factorial := by
      rw [← Int64.ofNat_mul, Nat.factorial_succ]
    rw [counter, product] at continued
    have path := turned.append (ih (by omega) continued)
    rwa [show 2 + (2 * turns + 2) = 2 * (turns + 1) + 2 by omega] at path

/-- A loop up to the largest number is never left. -/
theorem exists_path (loop : program.CountsTo Int64.maxValue At) (begun : At counter product config)
    (turns : Nat) : ∃ later, program.Path ["ret"] (2 * turns) config later := by
  induction turns generalizing counter product config with
  | zero => exact ⟨config, .nil config⟩
  | succ turns ih =>
    obtain ⟨next, turned, continued⟩ := loop.turn begun (Int64.le_maxValue counter)
    obtain ⟨later, path⟩ := ih continued
    refine ⟨later, ?_⟩
    rw [show 2 * (turns + 1) = 2 + 2 * turns by omega]
    exact turned.append path

end CountsTo

/-! ## Programs that count -/

/-- What the factorial programs have in common. Up to a number `base`, which is zero or one, they
return one. Otherwise two steps lead into a loop, in which the factors up to `first` are done. -/
structure CountsFrom (program : Program) (base : Int64) (first : Nat)
    (At : Int64 → Int64 → Int64 → Configuration → Prop) : Prop where
  base_nonneg : 0 ≤ base.toInt
  base_le_one : base.toInt ≤ 1
  first_le : first ≤ base.toInt + 1
  start : ∀ n, program.start "fac" [.number n, .closure "ret" []] = .ok (called n)
  small : ∀ n, n ≤ base → program.Path ["ret"] 2 (called n) (returned 1)
  large : ∀ n, ¬ n ≤ base → ∃ config, program.Path ["ret"] 2 (called n) config ∧
    At n (.ofNat (first + 1)) (.ofNat first.factorial) config
  loop : ∀ n, program.CountsTo n (At n)

/-- A call of the factorial returns the factorial to `ret` after a number of steps that can be counted:
with every limit that allows these steps, with no smaller one, and without a limit. A negative number
counts as zero. -/
def ReturnsFactorial (program : Program) (n : Int64) (steps : Nat) : Prop :=
  let arguments : List Value := [.literal (.int n), .closure "ret" []]
  let halt : Halt := ⟨"ret", [.literal (.int (.ofNat n.toInt.toNat.factorial))], steps⟩
  steps < UInt64.size ∧
  (∀ limit : UInt64, steps ≤ limit.toNat →
    program.run "fac" arguments ["ret"] (some limit) = some (.ok halt)) ∧
  (∀ limit : UInt64, limit.toNat < steps → program.run "fac" arguments ["ret"] (some limit) =
    some (.error (.stepLimitExceeded limit.toNat))) ∧
  program.run "fac" arguments ["ret"] none = some (.ok halt)

/-- A call of the factorial exceeds every limit, and without a limit there is no result. -/
def ExceedsAllLimits (program : Program) (n : Int64) : Prop :=
  let arguments : List Value := [.literal (.int n), .closure "ret" []]
  (∀ limit : UInt64, program.run "fac" arguments ["ret"] (some limit) =
    some (.error (.stepLimitExceeded limit.toNat))) ∧
  program.run "fac" arguments ["ret"] none = none

/-- A call of the factorial does not end, whatever number of steps it takes. -/
def NeverReturns (program : Program) (n : Int64) : Prop :=
  ∀ limit, program.runWithin "fac" [.literal (.int n), .closure "ret" []] ["ret"] limit =
    .error (.stepLimitExceeded limit)

namespace CountsFrom

variable {base : Int64} {first : Nat} {At : Int64 → Int64 → Int64 → Configuration → Prop}

theorem runWithin_eq (counts : program.CountsFrom base first At) (n : Int64) (limit : Nat) :
    program.runWithin "fac" [.number n, .closure "ret" []] ["ret"] limit =
      program.runFor ["ret"] limit 0 (called n) := by
  rw [runWithin, counts.start n]
  rfl

theorem runWithin_of_lt (counts : program.CountsFrom base first At) {count limit : Nat}
    (path : program.Path ["ret"] count (called n) later) (short : limit < count) :
    program.runWithin "fac" [.number n, .closure "ret" []] ["ret"] limit =
      .error (.stepLimitExceeded limit) := by
  rw [counts.runWithin_eq, path.runFor_of_lt short, Nat.zero_add]

theorem runWithin_of_le (counts : program.CountsFrom base first At) {steps limit : Nat}
    {result : Int64} (path : program.Path ["ret"] steps (called n) (returned result))
    (allowed : steps ≤ limit) :
    program.runWithin "fac" [.number n, .closure "ret" []] ["ret"] limit =
      .ok ⟨"ret", [.number result], steps⟩ := by
  obtain ⟨remaining, rfl⟩ := Nat.exists_eq_add_of_le allowed
  rw [counts.runWithin_eq, path.runFor_add, runFor_of_halts (returned_halts _), halt_returned,
    Nat.zero_add]

/-- What takes a countable number of steps is returned. -/
theorem returnsFactorial_of_path (counts : program.CountsFrom base first At) {steps : Nat}
    (path : program.Path ["ret"] steps (called n) (returned (.ofNat n.toInt.toNat.factorial)))
    (countable : steps < UInt64.size) : program.ReturnsFactorial n steps := by
  refine ⟨countable, fun limit allowed => ?_, fun limit short => ?_, ?_⟩
  · exact congrArg some (counts.runWithin_of_le path allowed)
  · exact congrArg some (counts.runWithin_of_lt path short)
  · exact run_eq_halt_iff.mpr ⟨counts.runWithin_of_le path (Nat.le_of_lt countable), countable⟩

/-- A path that cannot be counted exceeds every limit. -/
theorem exceedsAllLimits_of_path (counts : program.CountsFrom base first At) {steps : Nat}
    (path : program.Path ["ret"] steps (called n) later) (uncountable : UInt64.size ≤ steps) :
    program.ExceedsAllLimits n := by
  refine ⟨fun limit => ?_, ?_⟩
  · exact congrArg some
      (counts.runWithin_of_lt path (Nat.lt_of_lt_of_le limit.toNat_lt_size uncountable))
  · rw [run_eq_observed, counts.runWithin_eq]
    change counted? (program.runFor ["ret"] UInt64.size 0 (called n)) = none
    rcases Nat.lt_or_eq_of_le uncountable with longer | rfl
    · rw [path.runFor_of_lt longer]
      rfl
    · -- The whole allowance leads to the end of the path, which may halt, but too late to be counted.
      rw [← Nat.add_zero UInt64.size, path.runFor_add]
      by_cases stops : later.name ∈ ["ret"]
      · rw [runFor_of_halts stops]
        rfl
      · rw [runFor_zero stops]
        rfl

/-- The factorial of every number but the largest is computed. -/
theorem path_returned (counts : program.CountsFrom base first At)
    (notLargest : n ≠ Int64.maxValue) :
    program.Path ["ret"] (if n ≤ base then 2 else 2 * (n.toInt.toNat - first) + 4) (called n)
      (returned (.ofNat n.toInt.toNat.factorial)) := by
  obtain ⟨base_nonneg, base_le_one, first_le, -, small, large, loop⟩ := counts
  by_cases le : n ≤ base
  · have atMostOne : n.toInt.toNat ≤ 1 := by
      rw [Int64.le_iff_toInt_le] at le
      omega
    rw [if_pos le, Nat.factorial_eq_one.mpr atMostOne]
    exact small n le
  · rw [if_neg le]
    obtain ⟨config, entered, begun⟩ := large n le
    rw [Int64.le_iff_toInt_le] at le
    have number : Int64.ofNat n.toInt.toNat = n := by
      rw [← Int64.ofInt_eq_ofNat, Int.toNat_of_nonneg (by omega), Int64.ofInt_toInt]
    have loopToNumber : program.CountsTo (.ofNat n.toInt.toNat) (At n) := number.symm ▸ loop n
    have path := entered.append
      (loopToNumber.path_returned (toNat_succ_lt notLargest) (n.toInt.toNat - first) (by omega) begun)
    rwa [show 2 + (2 * (n.toInt.toNat - first) + 2) = 2 * (n.toInt.toNat - first) + 4 by omega] at path

/-- From the largest number the loop goes on and on. -/
theorem exists_path (counts : program.CountsFrom base first At) (count : Nat) :
    ∃ steps later, count < steps ∧ program.Path ["ret"] steps (called Int64.maxValue) later := by
  have notSmall : ¬ Int64.maxValue ≤ base := by
    have := counts.base_le_one
    rw [Int64.le_iff_toInt_le, Int64.toInt_maxValue]
    omega
  obtain ⟨config, entered, begun⟩ := counts.large Int64.maxValue notSmall
  obtain ⟨later, path⟩ := (counts.loop Int64.maxValue).exists_path begun count
  exact ⟨2 + 2 * count, later, by omega, entered.append path⟩

theorem neverReturns (counts : program.CountsFrom base first At) :
    program.NeverReturns Int64.maxValue := by
  intro limit
  obtain ⟨steps, later, long, path⟩ := counts.exists_path limit
  exact counts.runWithin_of_lt path long

theorem exceedsAllLimits (counts : program.CountsFrom base first At) :
    program.ExceedsAllLimits Int64.maxValue := by
  obtain ⟨steps, later, long, path⟩ := counts.exists_path UInt64.size
  exact counts.exceedsAllLimits_of_path path (Nat.le_of_lt long)

end CountsFrom

/-! ## The code -/

theorem path_two {name next : Name} {env entered : Env} (notReturned : name ≠ "ret")
    (nextNotReturned : next ≠ "ret") (first : program.step ⟨name, env⟩ = .ok ⟨next, entered⟩)
    (second : program.step ⟨next, entered⟩ = .ok later) :
    program.Path ["ret"] 2 ⟨name, env⟩ later :=
  .cons (mt List.mem_singleton.mp notReturned) first
    (.cons (mt List.mem_singleton.mp nextNotReturned) second (.nil later))

/-- The code that the factorial programs share: `fac` compares its number with `base`, `then` returns
one, and a result is returned to `ret`. -/
@[mk_iff]
structure EntryCode (program : Program) (base : Int64) (elseBody : Tree) : Prop where
  wellFormed : program.WellFormed
  fac : program.Lists "fac" [.int, .fn [.int]] (.branch
    [.primitive .lessEq [.parameter "fac" 0, .quote (.int base)],
      .abstraction "then", .abstraction "else"])
  thenCase : program.Lists "then" [] (.call (.parameter "fac" 1) [.quote (.int 1)])
  elseCase : program.Lists "else" [] elseBody
  ret : program.Lists "ret" [.int] (.call (.abstraction "ret") [.parameter "ret" 0])

/-- In the environment, `fac` was called with a number and the return label. -/
def CalledWith (n : Int64) (env : Env) : Prop :=
  env.get? "fac" = some [.number n, .closure "ret" []]

theorem calledWith_called (n : Int64) : CalledWith n (called n).env := by
  simp [CalledWith, called, Env.get?_set]

namespace EntryCode

variable {base : Int64} {elseBody : Tree} {env : Env}

theorem start (code : program.EntryCode base elseBody) (n : Int64) :
    program.start "fac" [.number n, .closure "ret" []] = .ok (called n) := by
  rw [start_eq_enter]
  exact code.fac.enter rfl

theorem value_number (code : program.EntryCode base elseBody) (bound : CalledWith n env) :
    (Tree.parameter "fac" 0).value program env = .ok (.number n) :=
  code.fac.value_parameter code.wellFormed (by decide) bound rfl

theorem value_return (code : program.EntryCode base elseBody) (bound : CalledWith n env) :
    (Tree.parameter "fac" 1).value program env = .ok (.closure "ret" []) :=
  code.fac.value_parameter code.wellFormed (by decide) bound rfl

/-- A call of the return label returns its argument. -/
theorem step_return (code : program.EntryCode base elseBody) {name : Name} {signature : Signature}
    {callee argument : Tree} {result : Int64}
    (listed : program.Lists name signature (.call callee [argument]))
    (atCallee : callee.value program env = .ok (.closure "ret" []))
    (atArgument : argument.value program env = .ok (.number result)) :
    program.step ⟨name, env⟩ = .ok (returned result) :=
  listed.step_call code.wellFormed atCallee (.cons atArgument .nil) code.ret rfl

theorem step_fac (code : program.EntryCode base elseBody) (bound : CalledWith n env) :
    program.step ⟨"fac", env⟩ =
      .ok (if n ≤ base then ⟨"then", env.set "then" []⟩ else ⟨"else", env.set "else" []⟩) :=
  code.fac.step_lessEq code.wellFormed (code.value_number bound) Tree.value_quote code.thenCase
    code.elseCase

theorem path_small (code : program.EntryCode base elseBody) (small : n ≤ base) :
    program.Path ["ret"] 2 (called n) (returned 1) := by
  have branched := code.step_fac (calledWith_called n)
  rw [if_pos small] at branched
  have bound := Env.get?_set_other (calledWith_called n) (show "fac" ≠ "then" by decide) []
  exact path_two (by decide) (by decide) branched
    (code.step_return code.thenCase (code.value_return bound) Tree.value_quote)

/-- A large number leads into the loop that `else` calls. -/
theorem path_large {loop : Name} {arguments : List Tree} {values : List Value} {signature : Signature}
    {body : Tree} (code : program.EntryCode base (.call (.abstraction loop) arguments))
    (listed : program.Lists loop signature body) (fits : values.length = signature.length)
    (atArguments : ∀ env, CalledWith n env →
      List.Forall₂ (fun tree value => tree.value program env = .ok value) arguments values)
    (large : ¬ n ≤ base) :
    ∃ env, CalledWith n env ∧
      program.Path ["ret"] 2 (called n) ⟨loop, Env.set env loop values⟩ := by
  have branched := code.step_fac (calledWith_called n)
  rw [if_neg large] at branched
  have bound := Env.get?_set_other (calledWith_called n) (show "fac" ≠ "else" by decide) []
  refine ⟨_, bound, path_two (by decide) (by decide) branched ?_⟩
  exact code.elseCase.step_call code.wellFormed listed.value_abstraction (atArguments _ bound) listed
    fits

end EntryCode

/-- The code of the factorial by a loop. -/
@[mk_iff]
structure LoopCode (program : Program) : Prop extends
    program.EntryCode 0 (.call (.abstraction "head") [.quote (.int 2), .quote (.int 1)]) where
  head : program.Lists "head" [.int, .int] (.branch
    [.primitive .lessEq [.parameter "head" 0, .parameter "fac" 0],
      .abstraction "body", .abstraction "next"])
  body : program.Lists "body" [] (.call (.abstraction "head")
    [.primitive .add [.parameter "head" 0, .quote (.int 1)],
      .primitive .mul [.parameter "head" 0, .parameter "head" 1]])
  next : program.Lists "next" [] (.call (.parameter "fac" 1) [.parameter "head" 1])

/-- About to execute the head of the loop. -/
structure InHead (n counter product : Int64) (config : Configuration) : Prop where
  name : config.name = "head"
  calledWith : CalledWith n config.env
  bound : config.env.get? "head" = some [.number counter, .number product]

namespace LoopCode

variable {env : Env} {counter product : Int64}

theorem value_counter (code : program.LoopCode)
    (bound : env.get? "head" = some [.number counter, .number product]) :
    (Tree.parameter "head" 0).value program env = .ok (.number counter) :=
  code.head.value_parameter code.wellFormed (by decide) bound rfl

theorem value_product (code : program.LoopCode)
    (bound : env.get? "head" = some [.number counter, .number product]) :
    (Tree.parameter "head" 1).value program env = .ok (.number product) :=
  code.head.value_parameter code.wellFormed (by decide) bound rfl

theorem step_head (code : program.LoopCode) (calledWith : CalledWith n env)
    (bound : env.get? "head" = some [.number counter, .number product]) :
    program.step ⟨"head", env⟩ =
      .ok (if counter ≤ n then ⟨"body", env.set "body" []⟩ else ⟨"next", env.set "next" []⟩) :=
  code.head.step_lessEq code.wellFormed (code.value_counter bound) (code.value_number calledWith)
    code.body code.next

theorem countsTo (code : program.LoopCode) (n : Int64) : program.CountsTo n (InHead n) where
  turn := by
    rintro counter product ⟨_, env⟩ ⟨rfl, calledWith, bound⟩ le
    have branched := code.step_head calledWith bound
    rw [if_pos le] at branched
    have kept := Env.get?_set_other bound (show "head" ≠ "body" by decide) []
    have called := code.body.step_call code.wellFormed code.head.value_abstraction
      (.cons (Tree.value_binary (code.value_counter kept) Tree.value_quote rfl)
        (.cons (Tree.value_binary (code.value_counter kept) (code.value_product kept) rfl) .nil))
      code.head rfl
    refine ⟨_, path_two (by decide) (by decide) branched called, rfl, ?_, ?_⟩
    · exact Env.get?_set_other (Env.get?_set_other calledWith (by decide) []) (by decide) _
    · rw [Env.get?_set, if_pos rfl]
  leave := by
    rintro counter product ⟨_, env⟩ ⟨rfl, calledWith, bound⟩ gt
    have branched := code.step_head calledWith bound
    rw [if_neg gt] at branched
    have kept := Env.get?_set_other bound (show "head" ≠ "next" by decide) []
    exact path_two (by decide) (by decide) branched (code.step_return code.next
      (code.value_return (Env.get?_set_other calledWith (by decide) [])) (code.value_product kept))

theorem countsFrom (code : program.LoopCode) : program.CountsFrom 0 1 InHead where
  base_nonneg := by decide
  base_le_one := by decide
  first_le := by decide
  start := code.start
  small _ small := code.path_small small
  large n large := by
    obtain ⟨env, calledWith, path⟩ := code.path_large code.head rfl
      (fun _ _ => .cons Tree.value_quote (.cons Tree.value_quote .nil)) large
    refine ⟨_, path, rfl, Env.get?_set_other calledWith (by decide) _, ?_⟩
    rw [Env.get?_set, if_pos rfl]
    rfl
  loop := code.countsTo

end LoopCode

/-- The code of the factorial by a tail-recursive helper. -/
@[mk_iff]
structure TailCode (program : Program) : Prop extends
    program.EntryCode 1 (.call (.abstraction "help")
      [.quote (.int 1), .quote (.int 1), .parameter "fac" 0, .parameter "fac" 1]) where
  help : program.Lists "help" [.int, .int, .int, .fn [.int]] (.branch
    [.primitive .lessEq [.parameter "help" 0, .parameter "help" 2],
      .abstraction "then2", .abstraction "else2"])
  again : program.Lists "then2" [] (.call (.abstraction "help")
    [.primitive .add [.parameter "help" 0, .quote (.int 1)],
      .primitive .mul [.parameter "help" 0, .parameter "help" 1],
      .parameter "help" 2, .parameter "help" 3])
  done : program.Lists "else2" [] (.call (.parameter "help" 3) [.parameter "help" 1])

/-- In the environment, the helper was called with a counter, a product, a number and the return
label. -/
def HelpsWith (n counter product : Int64) (env : Env) : Prop :=
  env.get? "help" = some [.number counter, .number product, .number n, .closure "ret" []]

/-- About to execute the helper. -/
structure InHelp (n counter product : Int64) (config : Configuration) : Prop where
  name : config.name = "help"
  bound : HelpsWith n counter product config.env

namespace TailCode

variable {env : Env} {counter product : Int64}

theorem value_help (code : program.TailCode) (bound : HelpsWith n counter product env) {index : Nat}
    {value : Value} (inRange : index < 4)
    (atIndex : [Value.number counter, .number product, .number n, .closure "ret" []][index]? =
      some value) :
    (Tree.parameter "help" index).value program env = .ok value :=
  code.help.value_parameter code.wellFormed inRange bound atIndex

theorem step_help (code : program.TailCode) (bound : HelpsWith n counter product env) :
    program.step ⟨"help", env⟩ =
      .ok (if counter ≤ n then ⟨"then2", env.set "then2" []⟩ else ⟨"else2", env.set "else2" []⟩) :=
  code.help.step_lessEq code.wellFormed (code.value_help bound (by decide) rfl)
    (code.value_help bound (by decide) rfl) code.again code.done

theorem countsTo (code : program.TailCode) (n : Int64) : program.CountsTo n (InHelp n) where
  turn := by
    rintro counter product ⟨_, env⟩ ⟨rfl, bound⟩ le
    have branched := code.step_help bound
    rw [if_pos le] at branched
    have kept := Env.get?_set_other bound (show "help" ≠ "then2" by decide) []
    have atCounter : (Tree.parameter "help" 0).value program (env.set "then2" []) =
        .ok (.number counter) := code.value_help kept (by decide) rfl
    have called := code.again.step_call code.wellFormed code.help.value_abstraction
      (.cons (Tree.value_binary atCounter Tree.value_quote rfl)
        (.cons (Tree.value_binary atCounter (code.value_help kept (by decide) rfl) rfl)
          (.cons (code.value_help kept (by decide) rfl)
            (.cons (code.value_help kept (by decide) rfl) .nil))))
      code.help rfl
    refine ⟨_, path_two (by decide) (by decide) branched called, rfl, ?_⟩
    rw [HelpsWith, Env.get?_set, if_pos rfl]
  leave := by
    rintro counter product ⟨_, env⟩ ⟨rfl, bound⟩ gt
    have branched := code.step_help bound
    rw [if_neg gt] at branched
    have kept := Env.get?_set_other bound (show "help" ≠ "else2" by decide) []
    exact path_two (by decide) (by decide) branched (code.step_return code.done
      (code.value_help kept (by decide) rfl) (code.value_help kept (by decide) rfl))

theorem countsFrom (code : program.TailCode) : program.CountsFrom 1 0 InHelp where
  base_nonneg := by decide
  base_le_one := by decide
  first_le := by decide
  start := code.start
  small _ small := code.path_small small
  large n large := by
    obtain ⟨env, -, path⟩ := code.path_large code.help rfl
      (fun _ calledWith => .cons Tree.value_quote (.cons Tree.value_quote
        (.cons (code.value_number calledWith) (.cons (code.value_return calledWith) .nil)))) large
    refine ⟨_, path, rfl, ?_⟩
    rw [HelpsWith, Env.get?_set, if_pos rfl]
    rfl
  loop := code.countsTo

end TailCode

end Program

namespace Samples

open Program

/-- The factorial by a loop has its code. -/
theorem exists_loopCode : ∃ program, factorialWithReturn = .ok program ∧ program.LoopCode := by
  let program := factorialWithReturn.toOption.getD {}
  obtain ⟨built, wellFormed⟩ : factorialWithReturn = .ok program ∧ program.WellFormed := by
    decide +kernel
  refine ⟨program, built, ?_⟩
  simp only [loopCode_iff, entryCode_iff, ← lists_iff wellFormed.table]
  decide +kernel

/-- The factorial by a tail-recursive helper has its code. -/
theorem exists_tailCode : ∃ program, tailFactorialWithReturn = .ok program ∧ program.TailCode := by
  let program := tailFactorialWithReturn.toOption.getD {}
  obtain ⟨built, wellFormed⟩ : tailFactorialWithReturn = .ok program ∧ program.WellFormed := by
    decide +kernel
  refine ⟨program, built, ?_⟩
  simp only [tailCode_iff, entryCode_iff, ← lists_iff wellFormed.table]
  decide +kernel

/-- The factorial by a tail-recursive helper cannot be counted at the largest number but one. -/
theorem exists_tailPath : ∃ program, tailFactorialWithReturn = .ok program ∧ program.TailCode ∧
    program.Path ["ret"] UInt64.size (called (Int64.maxValue - 1)) (returned 0) := by
  obtain ⟨program, built, code⟩ := exists_tailCode
  refine ⟨program, built, code, ?_⟩
  have path := code.countsFrom.path_returned (show Int64.maxValue - 1 ≠ Int64.maxValue by decide)
  have factors : (Int64.maxValue - 1).toInt.toNat = 2 ^ 63 - 2 := by decide
  rwa [if_neg (by decide), factors, ofNat_factorial_eq_zero (by decide)] at path

/-- Both factorial programs return the factorial of a number, wrapped at 64 bits, and so they agree.
They differ in the number of steps: on the largest number but one the second takes `2 ^ 64` of them,
for which no limit of 64 bits is enough. On the largest number the counters wrap, and neither program
ever returns. -/
theorem factorials_return :
    ∃ loop tail : Program, factorialWithReturn = .ok loop ∧ tailFactorialWithReturn = .ok tail ∧
      loop.closure "ret" = .ok (.closure "ret" []) ∧ tail.closure "ret" = .ok (.closure "ret" []) ∧
      (∀ n : Int64, n ≠ Int64.maxValue →
        loop.ReturnsFactorial n (if n ≤ 0 then 2 else 2 * n.toInt.toNat + 2)) ∧
      (∀ n : Int64, n ≠ Int64.maxValue → n ≠ Int64.maxValue - 1 →
        tail.ReturnsFactorial n (if n ≤ 1 then 2 else 2 * n.toInt.toNat + 4)) ∧
      tail.ExceedsAllLimits (Int64.maxValue - 1) ∧
      tail.runWithin "fac" [.literal (.int (Int64.maxValue - 1)), .closure "ret" []] ["ret"]
        UInt64.size = .ok ⟨"ret", [.literal (.int 0)], UInt64.size⟩ ∧
      (loop.ExceedsAllLimits Int64.maxValue ∧ loop.NeverReturns Int64.maxValue) ∧
      tail.ExceedsAllLimits Int64.maxValue ∧ tail.NeverReturns Int64.maxValue := by
  obtain ⟨loop, loopBuilt, loopCode⟩ := exists_loopCode
  obtain ⟨tail, tailBuilt, tailCode, uncountable⟩ := exists_tailPath
  refine ⟨loop, tail, loopBuilt, tailBuilt, loopCode.ret.closure, tailCode.ret.closure,
    fun n notLargest => ?_, fun n notLargest notNext => ?_,
    tailCode.countsFrom.exceedsAllLimits_of_path uncountable (Nat.le_refl _),
    tailCode.countsFrom.runWithin_of_le uncountable (Nat.le_refl _),
    ⟨loopCode.countsFrom.exceedsAllLimits, loopCode.countsFrom.neverReturns⟩,
    tailCode.countsFrom.exceedsAllLimits, tailCode.countsFrom.neverReturns⟩
  · have below := toNat_succ_lt notLargest
    have steps : (if n ≤ 0 then 2 else 2 * n.toInt.toNat + 2) =
        if n ≤ 0 then 2 else 2 * (n.toInt.toNat - 1) + 4 := by
      split
      next => rfl
      next positive =>
        rw [Int64.le_iff_toInt_le, Int64.toInt_zero] at positive
        omega
    rw [steps]
    refine loopCode.countsFrom.returnsFactorial_of_path
      (loopCode.countsFrom.path_returned notLargest) ?_
    rw [UInt64.size]
    split <;> omega
  · have below := toNat_succ_lt notLargest
    have differs : n.toInt ≠ 2 ^ 63 - 2 := fun same => notNext (Int64.toInt_inj.mp same)
    refine tailCode.countsFrom.returnsFactorial_of_path
      (tailCode.countsFrom.path_returned notLargest) ?_
    rw [UInt64.size]
    split <;> omega

/-- On the largest number but one, which is not the largest, every limit is exceeded. -/
theorem tailFactorial_exceeds_limits :
    Int64.maxValue - 1 ≠ Int64.maxValue ∧
    ∃ tail : Program, tailFactorialWithReturn = .ok tail ∧
      tail.closure "ret" = .ok (.closure "ret" []) ∧
      ∀ limit : UInt64, tail.run "fac" [.literal (.int (Int64.maxValue - 1)), .closure "ret" []]
        ["ret"] (some limit) = some (.error (.stepLimitExceeded limit.toNat)) := by
  obtain ⟨tail, built, code, uncountable⟩ := exists_tailPath
  exact ⟨by decide, tail, built, code.ret.closure,
    (code.countsFrom.exceedsAllLimits_of_path uncountable (Nat.le_refl _)).1⟩

/-- The factorial of twenty-one is the first that wraps. -/
theorem factorials_return_wrapped :
    let arguments : List Value := [.literal (.int 21), .closure "ret" []]
    (21 : Int64) ≠ Int64.maxValue ∧ (21 : Int64) ≠ Int64.maxValue - 1 ∧
    ∃ loop tail : Program, factorialWithReturn = .ok loop ∧ tailFactorialWithReturn = .ok tail ∧
      loop.run "fac" arguments ["ret"] (some 44) =
        some (.ok ⟨"ret", [.literal (.int (-4249290049419214848))], 44⟩) ∧
      tail.run "fac" arguments ["ret"] (some 46) =
        some (.ok ⟨"ret", [.literal (.int (-4249290049419214848))], 46⟩) := by
  have notLargest : (21 : Int64) ≠ Int64.maxValue := by decide
  have notNext : (21 : Int64) ≠ Int64.maxValue - 1 := by decide
  obtain ⟨loop, tail, loopBuilt, tailBuilt, -, -, loopReturns, tailReturns, -⟩ := factorials_return
  have loopReturns := loopReturns 21 notLargest
  have tailReturns := tailReturns 21 notLargest notNext
  have wrapped : Int64.ofNat (21 : Int64).toInt.toNat.factorial = -4249290049419214848 := by
    decide +kernel
  rw [ReturnsFactorial, wrapped] at loopReturns tailReturns
  exact ⟨notLargest, notNext, loop, tail, loopBuilt, tailBuilt, loopReturns.2.1 44 (by decide),
    tailReturns.2.1 46 (by decide)⟩

end Samples

end CpsGraph
