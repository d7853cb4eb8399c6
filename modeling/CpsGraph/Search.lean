import CpsGraph.Error

/-! # Searching a graph of handles

Depth-first and breadth-first search over the handles below a bound, with the edges given by a
function that may fail. A search goes in rounds: it skips the marked handles at the front of its
frontier, marks the next one, and adds the edges of that handle to the frontier. Each round marks
another handle below the bound, so one round more than there are handles is always enough, and
`Search.walk_cons_fresh` and its companions describe a search without mention of rounds.
-/

namespace CpsGraph

/-- What a search did. `marked` holds the marked handles, newest first, including those that were
marked beforehand; `order` holds the handles whose edges were found, in order. A search that meets
a fault ends there, with the faulty handle marked but not ordered. -/
structure Walk where
  marked : List Handle
  order : List Handle
  fault : Option GraphError
deriving Repr, DecidableEq

namespace Walk

/-- The walk that ends at once. -/
def finished (marked : List Handle) : Walk := ⟨marked, [], none⟩

/-- The walk that ends with a fault at a handle. -/
def failed (marked : List Handle) (handle : Handle) (fault : GraphError) : Walk :=
  ⟨handle :: marked, [], some fault⟩

/-- The walk that visits a handle first. -/
def visiting (handle : Handle) (walk : Walk) : Walk := { walk with order := handle :: walk.order }

/-- The visited handles in order, unless there was a fault. -/
def result (walk : Walk) : Except GraphError (List Handle) :=
  walk.fault.elim (.ok walk.order) .error

end Walk

namespace Search

/-- The edges of a graph of handles. -/
abbrev Edges := Handle → Except GraphError (List Handle)

/-- Where a search adds the handles that it finds to its frontier. -/
inductive Strategy where
  | depthFirst
  | breadthFirst
deriving Repr, DecidableEq

/-- Add handles to a frontier: before the rest to go deep first, or after it to go wide first. -/
def Strategy.add : Strategy → (found rest : List Handle) → List Handle
  | .depthFirst, found, rest => found ++ rest
  | .breadthFirst, found, rest => rest ++ found

/-- The edges of a handle below the bound. -/
def edgesBelow (size : Nat) (edges : Edges) : Edges := fun handle =>
  if handle < size then edges handle else .error (.unknownHandle handle)

/-- Search for at most `rounds` rounds. -/
def walkFor (strategy : Strategy) (size : Nat) (edges : Edges) :
    (rounds : Nat) → (frontier marked : List Handle) → Walk
  | 0, _, marked => .finished marked
  | rounds + 1, frontier, marked =>
    match frontier.dropWhile (· ∈ marked) with
    | [] => .finished marked
    | handle :: rest =>
      match edgesBelow size edges handle with
      | .error fault => .failed marked handle fault
      | .ok found =>
        (walkFor strategy size edges rounds (strategy.add found rest) (handle :: marked)).visiting
          handle

/-- Search from a frontier, skipping what is marked. -/
def walk (strategy : Strategy) (size : Nat) (edges : Edges) (frontier marked : List Handle) :
    Walk :=
  walkFor strategy size edges (size + 1) frontier marked

/-- How many handles below a bound are not marked. -/
def unmarked (size : Nat) (marked : List Handle) : Nat :=
  (List.range size).countP (· ∉ marked)

/-- Marking a handle does not make others unmarked. -/
theorem countP_not_mem_cons_le (handle : Handle) (marked handles : List Handle) :
    handles.countP (· ∉ handle :: marked) ≤ handles.countP (· ∉ marked) := by
  apply List.countP_mono_left
  intro other _ unmarked
  simp only [List.mem_cons, not_or, decide_eq_true_eq] at unmarked ⊢
  exact unmarked.2

theorem unmarked_le (size : Nat) (marked : List Handle) : unmarked size marked ≤ size :=
  Nat.le_trans List.countP_le_length (Nat.le_of_eq List.length_range)

/-- Marking a handle leaves fewer handles unmarked. -/
theorem unmarked_cons_lt {size : Nat} {handle : Handle} {marked : List Handle}
    (inRange : handle < size) (fresh : handle ∉ marked) :
    unmarked size (handle :: marked) < unmarked size marked := by
  obtain ⟨before, after, split⟩ := List.append_of_mem (List.mem_range.mpr inRange)
  have before_le := countP_not_mem_cons_le handle marked before
  have after_le := countP_not_mem_cons_le handle marked after
  have gone : decide (handle ∉ handle :: marked) = false := by simp
  have there : decide (handle ∉ marked) = true := by simpa using fresh
  simp only [unmarked, split, List.countP_append, List.countP_cons, gone, there,
    Bool.false_eq_true, if_false, if_true]
  omega

theorem edgesBelow_eq_ok_iff {size : Nat} {edges : Edges} {handle : Handle} {found : List Handle} :
    edgesBelow size edges handle = .ok found ↔ handle < size ∧ edges handle = .ok found := by
  by_cases inRange : handle < size <;> simp [edgesBelow, inRange]

/-- What is left of a frontier begins with an element that is not marked. -/
theorem not_mem_of_dropWhile_eq_cons {α : Type} [BEq α] [LawfulBEq α] {frontier marked rest : List α}
    {element : α} (left : frontier.dropWhile (· ∈ marked) = element :: rest) : element ∉ marked := by
  have first := List.head?_dropWhile_not (fun other => decide (other ∈ marked)) frontier
  simpa [left] using first

/-- More rounds than there are unmarked handles all give the same walk. -/
theorem walkFor_eq_of_unmarked_lt (strategy : Strategy) (size : Nat) (edges : Edges)
    {rounds others : Nat} {frontier marked : List Handle}
    (enough : unmarked size marked < rounds) (enoughToo : unmarked size marked < others) :
    walkFor strategy size edges rounds frontier marked =
      walkFor strategy size edges others frontier marked := by
  induction rounds generalizing others frontier marked with
  | zero => omega
  | succ rounds ih =>
    cases others with
    | zero => omega
    | succ others =>
      simp only [walkFor]
      cases left : frontier.dropWhile (· ∈ marked) with
      | nil => rfl
      | cons handle rest =>
        cases next : edgesBelow size edges handle with
        | error fault => simp only [next]
        | ok found =>
          have inRange := (edgesBelow_eq_ok_iff.mp next).1
          have fewer := unmarked_cons_lt inRange (not_mem_of_dropWhile_eq_cons left)
          have same :
              walkFor strategy size edges rounds (strategy.add found rest) (handle :: marked) =
                walkFor strategy size edges others (strategy.add found rest) (handle :: marked) :=
            ih (by omega) (by omega)
          simp only [next, same]

/-- A search with nothing on its frontier ends. -/
theorem walk_nil (strategy : Strategy) (size : Nat) (edges : Edges) (marked : List Handle) :
    walk strategy size edges [] marked = .finished marked := rfl

/-- A search skips a marked handle. -/
theorem walk_cons_marked {strategy : Strategy} {size : Nat} {edges : Edges}
    {handle : Handle} {rest marked : List Handle} (known : handle ∈ marked) :
    walk strategy size edges (handle :: rest) marked = walk strategy size edges rest marked := by
  simp only [walk, walkFor, List.dropWhile_cons, known, decide_true, if_true]

/-- A search ends at a handle whose edges cannot be found. -/
theorem walk_cons_fault {strategy : Strategy} {size : Nat} {edges : Edges}
    {handle : Handle} {rest marked : List Handle} {fault : GraphError} (fresh : handle ∉ marked)
    (failure : edgesBelow size edges handle = .error fault) :
    walk strategy size edges (handle :: rest) marked = .failed marked handle fault := by
  simp only [walk, walkFor, List.dropWhile_cons, fresh, decide_false, Bool.false_eq_true, if_false,
    failure]

/-- A search marks and visits a handle that is not marked, and goes on with its edges. -/
theorem walk_cons_fresh {strategy : Strategy} {size : Nat} {edges : Edges}
    {handle : Handle} {rest marked found : List Handle} (fresh : handle ∉ marked)
    (success : edgesBelow size edges handle = .ok found) :
    walk strategy size edges (handle :: rest) marked =
      (walk strategy size edges (strategy.add found rest) (handle :: marked)).visiting handle := by
  have inRange := (edgesBelow_eq_ok_iff.mp success).1
  have fewer := unmarked_cons_lt inRange fresh
  have few := unmarked_le size marked
  have same : walkFor strategy size edges size (strategy.add found rest) (handle :: marked) =
      walkFor strategy size edges (size + 1) (strategy.add found rest) (handle :: marked) :=
    walkFor_eq_of_unmarked_lt strategy size edges (by omega) (by omega)
  rw [walk, walkFor]
  simp only [List.dropWhile_cons, fresh, decide_false, Bool.false_eq_true, if_false, success, same,
    walk]

end Search

end CpsGraph
