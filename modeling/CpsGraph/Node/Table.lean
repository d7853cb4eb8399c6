import CpsGraph.Error

/-! # Tables of interned nodes

A table keeps each node once and names it by its position. Interning a node gives the handle of
an equal node that is already there, or appends it, so handles are given out in order of first
insertion and never change what they stand for.
-/

namespace CpsGraph

/-- The nodes of a program in order of first insertion. -/
structure Table where
  nodes : Array Node := #[]
deriving Repr, DecidableEq, Inhabited

namespace Table

/-- The number of nodes. -/
def size (table : Table) : Nat := table.nodes.size

/-- The node at a handle. -/
def get? (table : Table) (handle : Handle) : Option Node := table.nodes[handle]?

/-- The node at a handle, or the error that there is none. -/
def get (table : Table) (handle : Handle) : Except GraphError Node :=
  (table.get? handle).elim (.error (.unknownHandle handle)) .ok

/-- The handle of a node equal to the given one. -/
def find? (table : Table) (node : Node) : Option Handle := table.nodes.idxOf? node

/-- The handle of a node, which is appended if the table does not hold it yet. -/
def intern (table : Table) (node : Node) : Handle × Table :=
  match table.find? node with
  | some handle => (handle, table)
  | none => (table.size, ⟨table.nodes.push node⟩)

/-- Intern nodes from left to right. -/
def internAll (table : Table) : List Node → List Handle × Table
  | [] => ([], table)
  | node :: nodes =>
    let (handle, table) := table.intern node
    let (handles, table) := internAll table nodes
    (handle :: handles, table)

/-- One table continues another if every handle keeps its node. -/
def Extends (after before : Table) : Prop :=
  ∀ ⦃handle : Handle⦄ ⦃node : Node⦄, before.get? handle = some node → after.get? handle = some node

theorem get_eq_ok_iff {table : Table} {handle : Handle} {node : Node} :
    table.get handle = .ok node ↔ table.get? handle = some node := by
  unfold get
  cases table.get? handle <;> simp

theorem lt_size_of_get? {table : Table} {handle : Handle} {node : Node}
    (present : table.get? handle = some node) : handle < table.size :=
  (Array.getElem?_eq_some_iff.mp present).1

theorem find?_eq_none_iff {table : Table} {node : Node} :
    table.find? node = none ↔ ∀ handle, table.get? handle ≠ some node := by
  simp only [find?, get?, Array.idxOf?_eq_none_iff, Array.mem_iff_getElem?, not_exists, ne_eq]

theorem get?_of_find? {table : Table} {node : Node} {handle : Handle}
    (found : table.find? node = some handle) : table.get? handle = some node := by
  simp only [find?, Array.idxOf?_eq_map_finIdxOf?_val, Option.map_eq_some_iff,
    Array.finIdxOf?_eq_some_iff] at found
  obtain ⟨index, ⟨same, -⟩, rfl⟩ := found
  simpa [get?] using same

/-- The handle that interning gives denotes the interned node. -/
theorem get?_intern (table : Table) (node : Node) :
    (table.intern node).2.get? (table.intern node).1 = some node := by
  unfold intern
  cases found : table.find? node with
  | some handle => exact get?_of_find? found
  | none => simp [get?, size]

theorem extends_refl (table : Table) : table.Extends table := fun _ _ present => present

theorem Extends.trans {first second third : Table} (later : third.Extends second)
    (earlier : second.Extends first) : third.Extends first :=
  fun _ _ present => later (earlier present)

/-- Interning keeps every handle. -/
theorem extends_intern (table : Table) (node : Node) : (table.intern node).2.Extends table := by
  intro handle old present
  unfold intern
  cases table.find? node with
  | some _ => exact present
  | none =>
    have inRange := lt_size_of_get? present
    simp only [get?, size] at *
    rw [Array.getElem?_push_lt inRange, ← present, Array.getElem?_eq_getElem inRange]

end Table

end CpsGraph
