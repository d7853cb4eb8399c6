import CpsGraph.Program.Basic

/-! # Structural equality of programs

Two programs are the same if they have the same labels with equal signatures, marks and bodies,
wherever their nodes are stored, in whatever order the labels were defined, and whatever other
nodes the tables hold. Shared parts are compared once.
-/

namespace CpsGraph

/-- Pairs of handles, of two tables. -/
abbrev SamePairs := List (Handle × Handle)

namespace Table

/-- Compare pairs of handles for at most `rounds` rounds. A pair that was seen is skipped; another one
is marked as seen, and if its nodes have the same shape, the pairs of their children are compared next,
the last one first. The result is all pairs seen, which can be taken as equal since there is none if
two nodes differ. Each round marks another pair, so one round more than there are pairs is enough. -/
def compareFor (left right : Table) : (rounds : Nat) → (stack seen : SamePairs) → Option SamePairs
  | 0, _, seen => some seen
  | rounds + 1, stack, seen =>
    match stack.dropWhile (· ∈ seen) with
    | [] => some seen
    | (x, y) :: rest =>
      match left.get? x, right.get? y with
      | some a, some b =>
        if a.sameShape b then
          compareFor left right rounds ((a.children.zip b.children).reverse ++ rest) ((x, y) :: seen)
        else none
      | _, _ => none

/-- Compare the structures at two handles. -/
def same (left right : Table) (x y : Handle) (seen : SamePairs) : Option SamePairs :=
  left.compareFor right (left.size * right.size + 1) [(x, y)] seen

end Table

namespace Program

/-- Compare a label with the label of the same name in another program. What was seen at other labels
is not compared again. -/
def sameLabel (left right : Program) (seen : SamePairs) (label : Label) : Option SamePairs := do
  let other ← right.find? label.name
  if label.signature = other.signature ∧ label.external = other.external then
    left.table.same right.table label.body other.body seen
  else none

/-- Whether two programs have the same structure. -/
def same (left right : Program) : Bool :=
  left.labels.length = right.labels.length &&
    (left.labels.foldlM (left.sameLabel right) []).isSome

end Program

end CpsGraph
