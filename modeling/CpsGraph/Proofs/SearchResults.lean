import CpsGraph.Proofs.Results
import CpsGraph.Search

/-! # What a search finds

A search without a fault visits what is on its frontier and not marked, and with a handle also its
edges: together with the marked handles its result is closed. It visits nothing else, since whatever
holds of the frontier and is kept along edges holds of all that is visited.
-/

namespace CpsGraph

theorem Walk.result_eq_ok_iff {walk : Walk} {found : List Handle} :
    walk.result = .ok found ↔ walk.fault = none ∧ walk.order = found := by
  unfold Walk.result
  cases walk.fault <;> simp

theorem Walk.result_eq_error_iff {walk : Walk} {fault : GraphError} :
    walk.result = .error fault ↔ walk.fault = some fault := by
  unfold Walk.result
  cases walk.fault <;> simp

namespace Search

variable {strategy : Strategy} {size : Nat} {edges : Edges}

theorem Strategy.mem_add {found rest : List Handle} {handle : Handle} :
    handle ∈ strategy.add found rest ↔ handle ∈ found ∨ handle ∈ rest := by
  cases strategy with
  | depthFirst => exact List.mem_append
  | breadthFirst => exact List.mem_append.trans or_comm

/-- Induction along a search: a marked handle is skipped, and an unmarked one either ends the search
or is marked and replaced by its edges. -/
theorem walk_induction (strategy : Strategy) (size : Nat) (edges : Edges)
    {motive : (frontier marked : List Handle) → Prop}
    (done : ∀ marked, motive [] marked)
    (skip : ∀ handle rest marked, handle ∈ marked → motive rest marked →
      motive (handle :: rest) marked)
    (fail : ∀ handle rest marked fault, handle ∉ marked →
      edgesBelow size edges handle = .error fault → motive (handle :: rest) marked)
    (visit : ∀ handle rest marked found, handle ∉ marked →
      edgesBelow size edges handle = .ok found →
      motive (strategy.add found rest) (handle :: marked) → motive (handle :: rest) marked)
    (frontier marked : List Handle) : motive frontier marked := by
  -- Each visit leaves fewer unmarked handles, and each skip a shorter frontier.
  induction count : unmarked size marked using Nat.strongRecOn generalizing frontier marked with
  | ind count fewer =>
    subst count
    induction frontier with
    | nil => exact done marked
    | cons handle rest shorter =>
      by_cases known : handle ∈ marked
      · exact skip handle rest marked known shorter
      · cases next : edgesBelow size edges handle with
        | error fault => exact fail handle rest marked fault known next
        | ok found =>
          have inRange := (edgesBelow_eq_ok_iff.mp next).1
          exact visit handle rest marked found known next
            (fewer _ (unmarked_cons_lt inRange known) _ _ rfl)

/-- A search without a fault visits its whole frontier, less what is marked. -/
theorem mem_order_of_mem_frontier {frontier marked : List Handle}
    (faultless : (walk strategy size edges frontier marked).fault = none) {handle : Handle}
    (member : handle ∈ frontier) :
    handle ∈ marked ∨ handle ∈ (walk strategy size edges frontier marked).order := by
  induction frontier, marked using walk_induction strategy size edges with
  | done marked => cases member
  | skip first rest marked known ih =>
    rw [walk_cons_marked known] at faultless ⊢
    rcases List.mem_cons.mp member with rfl | later
    · exact .inl known
    · exact ih faultless later
  | fail first rest marked fault fresh failure =>
    rw [walk_cons_fault fresh failure] at faultless
    cases faultless
  | visit first rest marked found fresh success ih =>
    rw [walk_cons_fresh fresh success] at faultless ⊢
    rcases List.mem_cons.mp member with rfl | later
    · exact .inr List.mem_cons_self
    · rcases ih faultless (Strategy.mem_add.mpr (.inr later)) with known | visited
      · rcases List.mem_cons.mp known with rfl | known
        · exact .inr List.mem_cons_self
        · exact .inl known
      · exact .inr (List.mem_cons_of_mem _ visited)

/-- With a handle, a search without a fault also visits its edges, less what is marked. -/
theorem mem_order_of_mem_edges {frontier marked : List Handle}
    (faultless : (walk strategy size edges frontier marked).fault = none) {handle : Handle}
    (visited : handle ∈ (walk strategy size edges frontier marked).order) :
    ∃ found, edgesBelow size edges handle = .ok found ∧ ∀ next ∈ found,
      next ∈ marked ∨ next ∈ (walk strategy size edges frontier marked).order := by
  induction frontier, marked using walk_induction strategy size edges with
  | done marked => cases visited
  | skip first rest marked known ih =>
    rw [walk_cons_marked known] at faultless visited ⊢
    exact ih faultless visited
  | fail first rest marked fault fresh failure =>
    rw [walk_cons_fault fresh failure] at faultless
    cases faultless
  | visit first rest marked found fresh success ih =>
    rw [walk_cons_fresh fresh success] at faultless visited ⊢
    -- What is found later may be the handle that is visited now.
    have shift {next : Handle} (later : next ∈ first :: marked ∨
        next ∈ (walk strategy size edges (strategy.add found rest) (first :: marked)).order) :
        next ∈ marked ∨ next ∈ first ::
          (walk strategy size edges (strategy.add found rest) (first :: marked)).order := by
      rw [List.mem_cons] at later ⊢
      tauto
    rcases List.mem_cons.mp visited with rfl | later
    · refine ⟨found, success, fun next member => shift ?_⟩
      exact mem_order_of_mem_frontier faultless (Strategy.mem_add.mpr (.inl member))
    · obtain ⟨edgesOfHandle, success, closed⟩ := ih faultless later
      exact ⟨edgesOfHandle, success, fun next member => shift (closed next member)⟩

/-- A search that began with nothing marked visits the edges of all that it visits. -/
theorem mem_order_of_successors {frontier : List Handle}
    (faultless : (walk strategy size edges frontier []).fault = none) {handle : Handle}
    (visited : handle ∈ (walk strategy size edges frontier []).order) {found : List Handle}
    (success : edges handle = .ok found) :
    ∀ next ∈ found, next ∈ (walk strategy size edges frontier []).order := by
  intro next member
  obtain ⟨again, successAgain, closed⟩ := mem_order_of_mem_edges faultless visited
  rw [edgesBelow_eq_ok_iff, success] at successAgain
  cases successAgain.2
  exact (closed next member).resolve_left List.not_mem_nil

/-- What holds of the frontier and is kept along edges holds of all visited handles. What is marked
beforehand is not visited, so nothing has to hold of it or of its edges. -/
theorem forall_mem_order_of_unmarked {Holds : Handle → Prop} {frontier marked : List Handle}
    (start : ∀ handle ∈ frontier, handle ∉ marked → Holds handle)
    (kept : ∀ handle found, handle ∉ marked → Holds handle →
      edgesBelow size edges handle = .ok found → ∀ next ∈ found, next ∉ marked → Holds next) :
    ∀ handle ∈ (walk strategy size edges frontier marked).order, Holds handle := by
  induction frontier, marked using walk_induction strategy size edges with
  | done marked => exact fun handle visited => nomatch visited
  | skip first rest marked known ih =>
    rw [walk_cons_marked known]
    exact ih (fun handle member => start handle (List.mem_cons_of_mem _ member)) kept
  | fail first rest marked fault fresh failure =>
    rw [walk_cons_fault fresh failure]
    exact fun handle visited => nomatch visited
  | visit first rest marked found fresh success ih =>
    rw [walk_cons_fresh fresh success]
    have atFirst := start first List.mem_cons_self fresh
    have unmarked {next : Handle} (unmarkedLater : next ∉ first :: marked) : next ∉ marked :=
      fun known => unmarkedLater (List.mem_cons_of_mem _ known)
    intro handle visited
    rcases List.mem_cons.mp visited with rfl | later
    · exact atFirst
    · refine ih (fun next member unmarkedNext => ?_) (fun other others unmarkedOther holds success
        next member unmarkedNext => ?_) handle later
      · rcases Strategy.mem_add.mp member with new | old
        · exact kept first found fresh atFirst success next new (unmarked unmarkedNext)
        · exact start next (List.mem_cons_of_mem _ old) (unmarked unmarkedNext)
      · exact kept other others (unmarked unmarkedOther) holds success next member
          (unmarked unmarkedNext)

/-- What holds of the frontier and is kept along edges holds of all visited handles. -/
theorem forall_mem_order {Holds : Handle → Prop} {frontier marked : List Handle}
    (start : ∀ handle ∈ frontier, Holds handle)
    (kept : ∀ handle found, Holds handle → edgesBelow size edges handle = .ok found →
      ∀ next ∈ found, Holds next) :
    ∀ handle ∈ (walk strategy size edges frontier marked).order, Holds handle :=
  forall_mem_order_of_unmarked (fun handle member _ => start handle member)
    fun handle found _ holds success next member _ => kept handle found holds success next member

/-- A search visits no handle twice, and none that was marked beforehand. -/
theorem nodup_order (strategy : Strategy) (size : Nat) (edges : Edges) (frontier marked : List Handle) :
    (walk strategy size edges frontier marked).order.Nodup ∧
      ∀ handle ∈ (walk strategy size edges frontier marked).order, handle ∉ marked := by
  induction frontier, marked using walk_induction strategy size edges with
  | done marked => exact ⟨List.nodup_nil, fun handle visited => nomatch visited⟩
  | skip first rest marked known ih =>
    rw [walk_cons_marked known]
    exact ih
  | fail first rest marked fault fresh failure =>
    rw [walk_cons_fault fresh failure]
    exact ⟨List.nodup_nil, fun handle visited => nomatch visited⟩
  | visit first rest marked found fresh success ih =>
    rw [walk_cons_fresh fresh success]
    obtain ⟨distinct, unmarked⟩ := ih
    constructor
    · refine List.nodup_cons.mpr ⟨fun again => ?_, distinct⟩
      exact unmarked first again List.mem_cons_self
    · intro handle visited known
      rcases List.mem_cons.mp visited with rfl | later
      · exact fresh known
      · exact unmarked handle later (List.mem_cons_of_mem _ known)

/-- A search only visits handles below its bound. -/
theorem lt_of_mem_order {frontier marked : List Handle} {handle : Handle}
    (visited : handle ∈ (walk strategy size edges frontier marked).order) : handle < size := by
  induction frontier, marked using walk_induction strategy size edges with
  | done marked => cases visited
  | skip first rest marked known ih =>
    rw [walk_cons_marked known] at visited
    exact ih visited
  | fail first rest marked fault fresh failure =>
    rw [walk_cons_fault fresh failure] at visited
    cases visited
  | visit first rest marked found fresh success ih =>
    rw [walk_cons_fresh fresh success] at visited
    rcases List.mem_cons.mp visited with rfl | later
    · exact (edgesBelow_eq_ok_iff.mp success).1
    · exact ih later

/-- A search that meets a fault does so at a handle that satisfies what holds of the frontier and is
kept along edges. -/
theorem exists_of_fault {Holds : Handle → Prop} {frontier marked : List Handle} {fault : GraphError}
    (start : ∀ handle ∈ frontier, Holds handle)
    (kept : ∀ handle found, Holds handle → edgesBelow size edges handle = .ok found →
      ∀ next ∈ found, Holds next)
    (faulty : (walk strategy size edges frontier marked).fault = some fault) :
    ∃ handle, Holds handle ∧ edgesBelow size edges handle = .error fault := by
  induction frontier, marked using walk_induction strategy size edges with
  | done marked => cases faulty
  | skip first rest marked known ih =>
    rw [walk_cons_marked known] at faulty
    exact ih (fun handle member => start handle (List.mem_cons_of_mem _ member)) faulty
  | fail first rest marked other fresh failure =>
    rw [walk_cons_fault fresh failure] at faulty
    cases faulty
    exact ⟨first, start first List.mem_cons_self, failure⟩
  | visit first rest marked found fresh success ih =>
    rw [walk_cons_fresh fresh success] at faulty
    refine ih (fun next member => ?_) faulty
    rcases Strategy.mem_add.mp member with new | old
    · exact kept first found (start first List.mem_cons_self) success next new
    · exact start next (List.mem_cons_of_mem _ old)

/-- A search meets no fault if what holds of its frontier makes sure that there are edges and is
kept along them. -/
theorem fault_eq_none {Holds : Handle → Prop} {frontier marked : List Handle}
    (start : ∀ handle ∈ frontier, Holds handle)
    (kept : ∀ handle, Holds handle → ∃ found, edgesBelow size edges handle = .ok found ∧
      ∀ next ∈ found, Holds next) :
    (walk strategy size edges frontier marked).fault = none := by
  refine Option.eq_none_iff_forall_ne_some.mpr fun fault faulty => ?_
  obtain ⟨handle, holds, failure⟩ := exists_of_fault start (fun handle found holds success => by
    obtain ⟨_, successAgain, next⟩ := kept handle holds
    rw [success] at successAgain
    cases successAgain
    exact next) faulty
  obtain ⟨found, success, -⟩ := kept handle holds
  rw [success] at failure
  cases failure

end Search

end CpsGraph
