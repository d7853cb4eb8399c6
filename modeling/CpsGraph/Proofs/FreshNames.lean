import CpsGraph.Proofs.WellFormed
import CpsGraph.Text.Decimal
import Mathlib.Data.Finset.Card
import Mathlib.Order.Bounds.Basic

/-! # Fresh names

The candidates for a fresh name are all different, whatever their base ends in, since a number can be
read off its decimal digits. So candidates in use are different names in use, and a search that tries
`base_1`, `base_2`, … without any bound ends after at most one candidate more than there are names in
use. The fresh name is what this search finds, the first candidate that is not in use.
-/

namespace CpsGraph.Program

variable {program : Program} {reserved : List Name} {base : Name}

theorem numberedName_injective (base : Name) : Function.Injective (numberedName base) :=
  fun _ _ same => Text.append_number_inj.mp same

theorem isUnused_iff {name : Name} :
    program.isUnused reserved name = true ↔ name ∉ program.names ∧ name ∉ reserved := by
  simp [isUnused, ← contains_iff]

/-- If the first candidates are all in use, there are not more of them than names in use. -/
theorem le_of_forall_used {number : Nat} (used : ∀ other, 1 ≤ other → other ≤ number →
      program.isUnused reserved (numberedName base other) = false) :
    number ≤ program.labels.length + reserved.toFinset.card := by
  have inUse : (List.range' 1 number).map (numberedName base) ⊆ program.names ++ reserved.dedup := by
    intro name member
    obtain ⟨other, candidate, rfl⟩ := List.mem_map.mp member
    obtain ⟨positive, below⟩ := List.mem_range'_1.mp candidate
    have taken := Bool.eq_false_iff.mp (used other positive (by omega))
    rw [Ne, isUnused_iff] at taken
    rw [List.mem_append, List.mem_dedup]
    tauto
  have few := ((List.nodup_range' 1).map (numberedName_injective base)).length_le_of_subset inUse
  simpa [names, List.card_toFinset] using few

/-- A fresh name has the least number whose candidate is not in use. -/
theorem exists_freshName_eq (program : Program) (base : Name) (reserved : List Name) :
    ∃ number, program.freshName base reserved = numberedName base number ∧
      program.isUnused reserved (numberedName base number) = true ∧ 1 ≤ number ∧
      ∀ other, 1 ≤ other → other < number →
        program.isUnused reserved (numberedName base other) = false := by
  cases first : (List.range' 1 (program.labels.length + reserved.length + 1)).find?
      fun number => program.isUnused reserved (numberedName base number) with
  | some number =>
    obtain ⟨unused, candidate, earlier⟩ := List.find?_range'_eq_some.mp first
    refine ⟨number, ?_, unused, (List.mem_range'_1.mp candidate).1, fun other positive before => ?_⟩
    · rw [freshName, first, Option.getD_some]
    · simpa using earlier other positive before
  | none =>
    -- All candidates would be in use, but there are more of them than names in use.
    have few : program.labels.length + reserved.length + 1 ≤
        program.labels.length + reserved.toFinset.card :=
      le_of_forall_used fun other positive le => Bool.eq_false_iff.mpr
        (List.find?_eq_none.mp first other (List.mem_range'_1.mpr ⟨positive, by omega⟩))
    have distinct := List.toFinset_card_le reserved
    omega

/-- A fresh name is neither a label nor reserved. -/
theorem freshName_unused (program : Program) (base : Name) (reserved : List Name) :
    program.freshName base reserved ∉ program.names ∧ program.freshName base reserved ∉ reserved := by
  obtain ⟨number, named, unused, -⟩ := program.exists_freshName_eq base reserved
  rw [named]
  exact isUnused_iff.mp unused

/-- The search for a name that is not in use, from the candidate with a number on: it stops at a
candidate that is not in use and otherwise goes on with the next. The second number counts the
candidates that were tried. -/
inductive Seeks (program : Program) (base : Name) (reserved : List Name) :
    (number count : Nat) → (found : Name) → Prop
  | stop {number : Nat} (unknown : numberedName base number ∉ program.names)
      (unreserved : numberedName base number ∉ reserved) :
      Seeks program base reserved number 1 (numberedName base number)
  | next {number count : Nat} {found : Name}
      (used : numberedName base number ∈ program.names ∨ numberedName base number ∈ reserved)
      (rest : Seeks program base reserved (number + 1) count found) :
      Seeks program base reserved number (count + 1) found

/-- A search has one outcome. -/
theorem Seeks.unique {number first second : Nat} {name other : Name}
    (seeks : program.Seeks base reserved number first name)
    (seeksToo : program.Seeks base reserved number second other) :
    first = second ∧ name = other := by
  induction seeks generalizing second with
  | stop unknown unreserved =>
    cases seeksToo with
    | stop => exact ⟨rfl, rfl⟩
    | next used => exact absurd used (not_or.mpr ⟨unknown, unreserved⟩)
  | next used rest ih =>
    cases seeksToo with
    | stop unknown unreserved => exact absurd used (not_or.mpr ⟨unknown, unreserved⟩)
    | next usedToo restToo =>
      obtain ⟨rfl, rfl⟩ := ih restToo
      exact ⟨rfl, rfl⟩

/-- A search finds the next candidate that is not in use. -/
theorem seeks_of_first {number last : Nat}
    (unused : program.isUnused reserved (numberedName base last) = true) (le : number ≤ last)
    (earlier : ∀ other, number ≤ other → other < last →
      program.isUnused reserved (numberedName base other) = false) :
    program.Seeks base reserved number (last - number + 1) (numberedName base last) := by
  induction gap : last - number generalizing number with
  | zero =>
    obtain rfl : number = last := by omega
    obtain ⟨unknown, unreserved⟩ := isUnused_iff.mp unused
    exact .stop unknown unreserved
  | succ gap ih =>
    have used := Bool.eq_false_iff.mp (earlier number (Nat.le_refl _) (by omega))
    rw [Ne, isUnused_iff] at used
    exact .next (by tauto) (ih (by omega) (fun other after => earlier other (by omega)) (by omega))

/-- A fresh name is the first of `base_1`, `base_2`, … that is neither a label nor reserved. The search
for it always ends, with this name only, after at most one candidate more than there are labels and
reserved names. -/
theorem freshName_first (program : Program) (base : Name) (reserved : List Name) :
    ∃ number, program.freshName base reserved = base ++ "_" ++ toString number ∧
      IsLeast {n : Nat | 1 ≤ n ∧ base ++ "_" ++ toString n ∉ program.names ∧
        base ++ "_" ++ toString n ∉ reserved} number ∧
      number ≤ program.labels.length + reserved.toFinset.card + 1 ∧
      ∀ count found, program.Seeks base reserved 1 count found ↔
        count = number ∧ found = program.freshName base reserved := by
  obtain ⟨number, named, unused, positive, earlier⟩ := program.exists_freshName_eq base reserved
  refine ⟨number, named, ⟨⟨positive, isUnused_iff.mp unused⟩, ?_⟩, ?_, fun count found => ?_⟩
  · rintro other ⟨otherPositive, otherUnused⟩
    by_contra before
    have used := earlier other otherPositive (Nat.lt_of_not_le before)
    rw [Bool.eq_false_iff, Ne, isUnused_iff] at used
    exact used otherUnused
  · have few : number - 1 ≤ program.labels.length + reserved.toFinset.card :=
      le_of_forall_used fun other otherPositive le => earlier other otherPositive (by omega)
    omega
  · have seeks := seeks_of_first unused positive earlier
    rw [Nat.sub_add_cancel positive, ← named] at seeks
    constructor
    · intro seeksToo
      exact seeksToo.unique seeks
    · rintro ⟨rfl, rfl⟩
      exact seeks

end CpsGraph.Program
