import CpsGraph.Proofs.ExactCallGraphs

/-! # Callees without marks

The callees of a label can be listed without marking the nodes of its body: a node is taken from a stack,
the nodes that it leads to are put in its place, and a name is kept the first time that it comes up. A
shared part is then gone through as often as it occurs. There are no cycles inside a body, so this ends
after some number of rounds, and it finds the same callees in the same order as the search with marks, or
the same fault: what a mark makes the search skip was gone through before without a fault.
-/

namespace CpsGraph

namespace Search

/-- Search depth first without marks, for at most `rounds` rounds. There is no result if these are not
enough. -/
def unmarkedWalk (edges : Edges) :
    (rounds : Nat) → (stack : List Handle) → Option (Except GraphError (List Handle))
  | _, [] => some (.ok [])
  | 0, _ :: _ => none
  | rounds + 1, handle :: stack =>
    match edges handle with
    | .error fault => some (.error fault)
    | .ok found => (unmarkedWalk edges rounds (found ++ stack)).map (Except.map (handle :: ·))

variable {α : Type} {edges : Edges} {own : Handle → Option α} {listing : Handle → List α}
  {handle : Handle} {handles more found : List Handle} {fault : GraphError}

/-- Without marks a search gets past some handles in a number of rounds, whatever else is on the stack,
and finds what is listed for them. -/
def Passes (edges : Edges) (own : Handle → Option α) (listing : Handle → List α)
    (handles : List Handle) : Prop :=
  ∃ count visited, visited.filterMap own = handles.flatMap listing ∧ ∀ rounds stack,
    unmarkedWalk edges (count + rounds) (handles ++ stack) =
      (unmarkedWalk edges rounds stack).map (Except.map (visited ++ ·))

/-- Without marks a search ends with a fault at some handles, whatever else is on the stack. -/
def FailsAt (edges : Edges) (handles : List Handle) (fault : GraphError) : Prop :=
  ∃ count, ∀ rounds stack,
    unmarkedWalk edges (count + rounds) (handles ++ stack) = some (.error fault)

theorem unmarkedWalk_visit (success : edges handle = .ok found) (rounds : Nat) (stack : List Handle) :
    unmarkedWalk edges (rounds + 1) (handle :: stack) =
      (unmarkedWalk edges rounds (found ++ stack)).map (Except.map (handle :: ·)) := by
  simp only [unmarkedWalk, success]

theorem map_visited_map (outcome : Option (Except GraphError (List Handle)))
    (first second : List Handle) :
    (outcome.map (Except.map (second ++ ·))).map (Except.map (first ++ ·)) =
      outcome.map (Except.map (first ++ second ++ ·)) := by
  rcases outcome with _ | _ | visited
  · rfl
  · rfl
  · exact congrArg (some ∘ Except.ok) (List.append_assoc first second visited).symm

theorem passes_nil : Passes edges own listing [] := by
  refine ⟨0, [], rfl, fun rounds stack => ?_⟩
  rw [Nat.zero_add, List.nil_append]
  rcases unmarkedWalk edges rounds stack with _ | _ | _ <;> rfl

theorem Passes.append (first : Passes edges own listing handles)
    (second : Passes edges own listing more) : Passes edges own listing (handles ++ more) := by
  obtain ⟨count, visited, listed, passes⟩ := first
  obtain ⟨countMore, visitedMore, listedMore, passesMore⟩ := second
  refine ⟨count + countMore, visited ++ visitedMore, ?_, fun rounds stack => ?_⟩
  · rw [List.filterMap_append, listed, listedMore, List.flatMap_append]
  · rw [Nat.add_assoc, List.append_assoc, passes, passesMore, map_visited_map]

theorem FailsAt.append_right (fails : FailsAt edges handles fault) (more : List Handle) :
    FailsAt edges (handles ++ more) fault := by
  obtain ⟨count, fails⟩ := fails
  refine ⟨count, fun rounds stack => ?_⟩
  rw [List.append_assoc, fails]

theorem Passes.failsAt_append (passes : Passes edges own listing handles)
    (fails : FailsAt edges more fault) : FailsAt edges (handles ++ more) fault := by
  obtain ⟨count, visited, -, passes⟩ := passes
  obtain ⟨countMore, fails⟩ := fails
  refine ⟨count + countMore, fun rounds stack => ?_⟩
  rw [Nat.add_assoc, List.append_assoc, passes, fails]
  rfl

theorem failsAt_singleton (failure : edges handle = .error fault) : FailsAt edges [handle] fault := by
  refine ⟨1, fun rounds stack => ?_⟩
  rw [Nat.add_comm, List.singleton_append]
  simp only [unmarkedWalk, failure]

theorem FailsAt.visit (fails : FailsAt edges found fault) (success : edges handle = .ok found) :
    FailsAt edges [handle] fault := by
  obtain ⟨count, fails⟩ := fails
  refine ⟨count + 1, fun rounds stack => ?_⟩
  rw [Nat.add_right_comm, List.singleton_append, unmarkedWalk_visit success, fails]
  rfl

section Listing

variable (unfolds : ∀ handle found, edges handle = .ok found →
    listing handle = (own handle).toList ++ found.flatMap listing)

include unfolds

theorem Passes.visit (passes : Passes edges own listing found) (success : edges handle = .ok found) :
    Passes edges own listing [handle] := by
  obtain ⟨count, visited, listed, passes⟩ := passes
  refine ⟨count + 1, handle :: visited, ?_, fun rounds stack => ?_⟩
  · rw [List.flatMap_singleton, unfolds handle found success, ← listed]
    cases named : own handle <;> simp [named]
  · rw [Nat.add_right_comm, List.singleton_append, unmarkedWalk_visit success, passes]
    exact map_visited_map _ [handle] visited

/-- What a recursion does with marks is done without them. A handle that is marked beforehand is under
way and so newer than all that is left, or a search without marks gets past it. -/
theorem RecursiveWalk.unmarked
    (older : ∀ handle found, edges handle = .ok found → ∀ next ∈ found, next < handle)
    {marked : List Handle} {walk : Walk} (recursive : RecursiveWalk edges handles marked walk)
    (known : ∀ handle ∈ marked, Passes edges own listing [handle] ∨ ∀ other ∈ handles, other < handle) :
    (walk.fault = none → Passes edges own listing handles ∧
      ∀ handle ∈ walk.marked, handle ∈ marked ∨ Passes edges own listing [handle]) ∧
    ∀ fault, walk.fault = some fault → FailsAt edges handles fault := by
  induction recursive with
  | done marked => exact ⟨fun _ => ⟨passes_nil, fun _ isMarked => .inl isMarked⟩, nofun⟩
  | @skip handle rest marked walk isMarked _ ih =>
    have passes : Passes edges own listing [handle] :=
      (known handle isMarked).resolve_right fun newer =>
        Nat.lt_irrefl handle (newer handle List.mem_cons_self)
    obtain ⟨succeeds, fails⟩ := ih fun other member => (known other member).imp_right
      fun newer next isNext => newer next (List.mem_cons_of_mem _ isNext)
    refine ⟨fun faultless => ?_, fun fault faulty => passes.failsAt_append (fails fault faulty)⟩
    exact ⟨passes.append (succeeds faultless).1, (succeeds faultless).2⟩
  | fail _ failure =>
    refine ⟨nofun, fun fault faulty => ?_⟩
    cases faulty
    exact (failsAt_singleton failure).append_right _
  | stop _ success _ faulty ih =>
    have fails := (ih (done_or_newer_of_visit (older _ _ success) known)).2
    refine ⟨fun faultless => ?_, fun fault isFault => ?_⟩
    · cases faulty.symm.trans faultless
    · exact ((fails fault isFault).visit success).append_right _
  | @visit handle rest marked found walk last _ success _ faultless _ ihInside ihLater =>
    obtain ⟨passesInside, marks⟩ :=
      (ihInside (done_or_newer_of_visit (older _ _ success) known)).1 faultless
    have passes : Passes edges own listing [handle] := passesInside.visit unfolds success
    have marks : ∀ other ∈ walk.marked, other ∈ marked ∨ Passes edges own listing [other] := by
      intro other isMarked
      rcases marks other isMarked with before | passesOther
      · rcases List.mem_cons.mp before with rfl | before
        · exact .inr passes
        · exact .inl before
      · exact .inr passesOther
    obtain ⟨succeeds, fails⟩ := ihLater fun other isMarked => by
      rcases marks other isMarked with before | passesOther
      · exact (known other before).imp_right fun newer next isNext =>
          newer next (List.mem_cons_of_mem _ isNext)
      · exact .inl passesOther
    refine ⟨fun noFault => ?_, fun fault faulty => passes.failsAt_append (fails fault faulty)⟩
    obtain ⟨passesRest, marksRest⟩ := succeeds noFault
    exact ⟨passes.append passesRest, fun other isMarked => (marksRest other isMarked).elim
      (marks other) .inr⟩

end Listing

end Search

namespace Program

variable {program : Program}

/-- The labels whose closures occur in a body, by a search without marks. -/
def unmarkedCallees (program : Program) (rounds : Nat) (body : Handle) :
    Option (Except GraphError (List Name)) :=
  (Search.unmarkedWalk program.bodyEdges rounds [body]).map
    (Except.map fun visited => (visited.filterMap program.abstractionTarget?).eraseDups)

theorem edgesBelow_bodyEdges (program : Program) :
    Search.edgesBelow program.size program.bodyEdges = program.bodyEdges :=
  program.edgesBelow_of_get _

/-- Without marks the same callees are listed, or the same fault is met, after some number of rounds. -/
theorem WellFormed.exists_unmarkedCallees (wellFormed : program.WellFormed) (body : Handle) :
    ∃ count, ∀ rounds, count ≤ rounds →
      program.unmarkedCallees rounds body = some (program.callees body) := by
  have recursive := Search.recursiveWalk_walk program.size program.bodyEdges [body] []
  rw [edgesBelow_bodyEdges] at recursive
  obtain ⟨succeeds, fails⟩ := recursive.unmarked
    (fun handle found edges => (wellFormed.closures_of_bodyEdges edges).1)
    (fun handle found edges => (wellFormed.closures_of_bodyEdges edges).2) nofun
  cases faulty : (Search.walk .depthFirst program.size program.bodyEdges [body] []).fault with
  | some fault =>
    obtain ⟨count, fails⟩ := fails fault faulty
    refine ⟨count, fun rounds enough => ?_⟩
    obtain ⟨more, rfl⟩ := Nat.exists_eq_add_of_le enough
    have failed : program.callees body = .error fault := by
      rw [callees, Walk.result, faulty]
      rfl
    have walked := fails more []
    rw [List.append_nil] at walked
    rw [unmarkedCallees, walked, failed]
    rfl
  | none =>
    obtain ⟨count, visited, listed, passes⟩ := (succeeds faulty).1
    refine ⟨count, fun rounds enough => ?_⟩
    obtain ⟨more, rfl⟩ := Nat.exists_eq_add_of_le enough
    have success : program.callees body = .ok _ :=
      Results.bind_eq_ok_iff.mpr ⟨_, Walk.result_eq_ok_iff.mpr ⟨faulty, rfl⟩, rfl⟩
    have walked := passes more []
    rw [List.append_nil, Search.unmarkedWalk] at walked
    rw [unmarkedCallees, walked, success, wellFormed.callees_eq success]
    simp only [Option.map_some, Except.map, List.append_nil, listed, List.flatMap_singleton]

end Program

end CpsGraph
