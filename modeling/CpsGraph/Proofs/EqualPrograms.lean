import CpsGraph.Proofs.AgreeingRuns
import CpsGraph.Proofs.Traversals
import Mathlib.Data.List.ProdSigma

/-! # Equal programs

Comparing two programs finds out whether they have the same labels, with the same signatures and
marks and with bodies of equal structure. Equal programs can be reached, traversed and run alike: what
can be reached in one has a node of equal structure that can be reached in the other, with edges to
nodes of equal structure.
-/

namespace CpsGraph

theorem Node.length_children_of_shape {first second : Node} (shape : first.shape = second.shape) :
    first.children.length = second.children.length := by
  have same := congrArg (fun node => node.children.length) shape
  simpa [Node.shape, Node.children_mapChildren] using same

namespace Table

variable {left right : Table} {x y : Handle} {stack seen all : SamePairs}

/-- What a comparison has done so far. The pairs seen are different ones, the nodes of each have the same
shape, and the pairs of their children are seen or on the stack. -/
structure Comparing (left right : Table) (stack seen : SamePairs) : Prop where
  distinct : seen.Nodup
  expanded : ∀ pair ∈ seen, ∃ first second, left.get? pair.1 = some first ∧
    right.get? pair.2 = some second ∧ first.shape = second.shape ∧
      ∀ child ∈ first.children.zip second.children, child ∈ stack ∨ child ∈ seen

theorem comparing_nil (left right : Table) : Comparing left right [] [] :=
  ⟨List.nodup_nil, nofun⟩

/-- A stack may be replaced by one that still has all that is not seen. -/
theorem Comparing.restack {other : SamePairs} (comparing : Comparing left right stack seen)
    (kept : ∀ pair ∈ stack, pair ∈ other ∨ pair ∈ seen) : Comparing left right other seen where
  distinct := comparing.distinct
  expanded pair isSeen := by
    obtain ⟨first, second, atX, atY, shape, children⟩ := comparing.expanded pair isSeen
    exact ⟨first, second, atX, atY, shape, fun child isChild =>
      (children child isChild).elim (kept child) .inr⟩

/-- A new pair of nodes of the same shape is seen and replaced by the pairs of their children. -/
theorem Comparing.expand {first second : Node} (comparing : Comparing left right ((x, y) :: stack) seen)
    (fresh : (x, y) ∉ seen) (atX : left.get? x = some first) (atY : right.get? y = some second)
    (shape : first.shape = second.shape) :
    Comparing left right ((first.children.zip second.children).reverse ++ stack) ((x, y) :: seen) where
  distinct := List.nodup_cons.mpr ⟨fresh, comparing.distinct⟩
  expanded := by
    refine List.forall_mem_cons.mpr ⟨⟨first, second, atX, atY, shape, fun child isChild => ?_⟩, ?_⟩
    · exact .inl (List.mem_append_left _ (List.mem_reverse.mpr isChild))
    · intro pair isSeen
      obtain ⟨first, second, atX, atY, shape, children⟩ := comparing.expanded pair isSeen
      refine ⟨first, second, atX, atY, shape, fun child isChild => ?_⟩
      rcases children child isChild with onStack | isSeen
      · exact (List.mem_cons.mp onStack).elim (fun same => .inr (same ▸ List.mem_cons_self))
          fun later => .inl (List.mem_append_right _ later)
      · exact .inr (List.mem_cons_of_mem _ isSeen)

/-- There are only so many pairs of handles. -/
theorem Comparing.length_seen_le (comparing : Comparing left right stack seen) :
    seen.length ≤ left.size * right.size := by
  have inRange : seen ⊆ List.range left.size ×ˢ List.range right.size := by
    intro pair isSeen
    obtain ⟨first, second, atX, atY, -⟩ := comparing.expanded pair isSeen
    exact List.mem_product.mpr
      ⟨List.mem_range.mpr (lt_size_of_get? atX), List.mem_range.mpr (lt_size_of_get? atY)⟩
  have few := (List.subperm_of_subset comparing.distinct inRange).length_le
  rwa [List.length_product, List.length_range, List.length_range] at few

/-- With an empty stack, all pairs seen are equal: the children of a node are older, so a difference
would have been met below it. -/
theorem Comparing.alike (wellFormed : left.WellFormed) (finished : Comparing left right [] seen)
    (isSeen : (x, y) ∈ seen) : left.Alike right x y := by
  induction x using Nat.strongRecOn generalizing y with
  | ind x ih =>
    obtain ⟨first, second, atX, atY, shape, children⟩ := finished.expanded _ isSeen
    refine .node atX atY shape
      (List.forall₂_iff_zip.mpr ⟨Node.length_children_of_shape shape, fun isPair => ?_⟩)
    have isSeen := (children _ isPair).resolve_left List.not_mem_nil
    exact ih _ (wellFormed.child_lt atX (List.of_mem_zip isPair).1) isSeen

/-- A comparison with enough rounds that finds no difference sees all that is on the stack. -/
theorem compareFor_run {rounds : Nat} (comparing : Comparing left right stack seen)
    (enough : left.size * right.size < rounds + seen.length)
    (success : left.compareFor right rounds stack seen = some all) :
    Comparing left right [] all ∧ stack ⊆ all ∧ seen ⊆ all := by
  induction rounds generalizing stack seen with
  | zero =>
    have few := comparing.length_seen_le
    omega
  | succ rounds ih =>
    rw [compareFor] at success
    have kept (pair : Handle × Handle) (onStack : pair ∈ stack) :=
      Results.mem_dropWhile_or seen onStack
    have comparing := comparing.restack kept
    cases next : stack.dropWhile (· ∈ seen) with
    | nil =>
      rw [next] at success comparing
      cases success
      refine ⟨comparing, fun pair onStack => ?_, List.Subset.refl _⟩
      exact (kept pair onStack).resolve_left (next ▸ List.not_mem_nil)
    | cons pair rest =>
      obtain ⟨x, y⟩ := pair
      rw [next] at success comparing kept
      have fresh := Search.not_mem_of_dropWhile_eq_cons next
      dsimp only at success
      split at success
      next first second atX atY =>
        split_ifs at success with sameShape
        have expanded := comparing.expand fresh atX atY (of_decide_eq_true sameShape)
        obtain ⟨finished, compared, before⟩ := ih expanded (by rw [List.length_cons]; omega) success
        refine ⟨finished, fun pair onStack => ?_, List.Subset.trans (List.subset_cons_self _ _) before⟩
        rcases kept pair onStack with isLeft | isSeen
        · rcases List.mem_cons.mp isLeft with rfl | later
          · exact before List.mem_cons_self
          · exact compared (List.mem_append_right _ later)
        · exact before (List.mem_cons_of_mem _ isSeen)
      next => cases success

/-- Structures in which no difference is found are equal, if this is so for the pairs seen before. -/
theorem alike_of_same (wellFormed : left.WellFormed) (finished : Comparing left right [] seen)
    (success : left.same right x y seen = some all) :
    Comparing left right [] all ∧ left.Alike right x y := by
  obtain ⟨finished, compared, -⟩ := compareFor_run (finished.restack nofun) (by omega) success
  exact ⟨finished, finished.alike wellFormed (compared List.mem_cons_self)⟩

/-- The parts of equal structures are equal in turn. -/
theorem Alike.exists_part (alike : left.Alike right x y) (wellFormed : left.WellFormed)
    (otherWellFormed : right.WellFormed) {part : Handle} (inside : part ∈ left.parts x) :
    ∃ other ∈ right.parts y, left.Alike right part other := by
  refine parts_induction (fun part => ∃ other ∈ right.parts y, left.Alike right part other)
    wellFormed ⟨y, right.mem_parts_self y, alike⟩ ?_ part inside
  rintro parent node child present ⟨other, otherInside, alikeParent⟩ isChild
  obtain ⟨atParent, atOther, -, children⟩ := alikeParent
  rw [present] at atParent
  cases atParent
  obtain ⟨otherChild, isOtherChild, alikeChild⟩ := Results.exists_right_of_mem children isChild
  exact ⟨otherChild, child_mem_parts otherWellFormed otherInside atOther isOtherChild, alikeChild⟩

/-- Equal structures mention the same names. -/
theorem Alike.mentions (alike : left.Alike right x y) (wellFormed : left.WellFormed)
    (otherWellFormed : right.WellFormed) {name : Name} (mentions : left.Mentions x name) :
    right.Mentions y name := by
  obtain ⟨part, inside, named⟩ := mentions
  obtain ⟨other, otherInside, alikePart⟩ := alike.exists_part wellFormed otherWellFormed inside
  rcases named with present | ⟨index, present⟩
  · obtain ⟨_, atOther, parallel⟩ := alikePart.exists_parallel present
    cases parallel
    exact ⟨other, otherInside, .inl atOther⟩
  · obtain ⟨_, atOther, parallel⟩ := alikePart.exists_parallel present
    cases parallel
    exact ⟨other, otherInside, .inr ⟨index, atOther⟩⟩

end Table

/-- Two labels, of two programs, have the same signature and mark and equal bodies. -/
structure Label.Same (left right : Table) (label other : Label) : Prop
    extends label.Alike left right other where
  external : label.external = other.external

namespace Program

/-- Two programs have the same labels. -/
structure Equal (left right : Program) : Prop where
  wellFormed : left.WellFormed
  otherWellFormed : right.WellFormed
  labels : ∀ name, Option.Rel (Label.Same left.table right.table) (left.find? name) (right.find? name)

variable {left right : Program} {name : Name} {label other : Label} {x y : Handle}

/-- Programs that are found to have the same structure are equal. -/
theorem equal_of_same (wellFormed : left.WellFormed) (otherWellFormed : right.WellFormed)
    (same : left.same right = true) : Equal left right := by
  obtain ⟨length, success⟩ := Bool.and_eq_true_iff.mp same
  obtain ⟨all, compared⟩ := Option.isSome_iff_exists.mp success
  have step : ∀ label ∈ left.labels, ∀ seen next : SamePairs,
      Table.Comparing left.table right.table [] seen → left.sameLabel right seen label = some next →
      Table.Comparing left.table right.table [] next ∧
        ∃ other, right.find? label.name = some other ∧ label.Same left.table right.table other := by
    intro label _ seen next finished compared
    obtain ⟨other, found, compared⟩ := Option.bind_eq_some_iff.mp compared
    split_ifs at compared with agrees
    obtain ⟨finishedNext, alike⟩ := Table.alike_of_same wellFormed.table finished compared
    exact ⟨finishedNext, other, found, ⟨agrees.1, alike⟩, agrees.2⟩
  have each := (Results.foldlM_invariant step (Table.comparing_nil _ _) compared).2
  -- As many different names on both sides, so no label of the second program is left over.
  have names : left.names.Perm right.names := by
    refine (List.subperm_of_subset wellFormed.names fun name isName => ?_).perm_of_length_le ?_
    · obtain ⟨label, member, rfl⟩ := List.mem_map.mp isName
      obtain ⟨other, found, -⟩ := each label member
      exact mem_names_iff.mpr ⟨other, found⟩
    · simp only [Program.names, List.length_map]
      exact Nat.le_of_eq (of_decide_eq_true length).symm
  refine ⟨wellFormed, otherWellFormed, fun name => ?_⟩
  cases found : left.find? name with
  | some label =>
    obtain ⟨other, foundOther, alike⟩ := each label (mem_of_find? found)
    rw [← name_of_find? found, foundOther]
    exact .some alike
  | none =>
    cases foundOther : right.find? name with
    | none => exact .none
    | some other =>
      obtain ⟨label, foundToo⟩ :=
        mem_names_iff.mp (names.mem_iff.mpr (mem_names_iff.mpr ⟨other, foundOther⟩))
      rw [found] at foundToo
      cases foundToo

namespace Equal

/-- The label of the other program with the same name. -/
theorem exists_label (equal : Equal left right) (found : left.find? name = some label) :
    ∃ other, right.find? name = some other ∧ label.Same left.table right.table other := by
  have related := equal.labels name
  rw [found] at related
  cases foundOther : right.find? name with
  | none =>
    rw [foundOther] at related
    cases related
  | some other =>
    rw [foundOther] at related
    cases related with
    | some same => exact ⟨other, rfl, same⟩

theorem refl (wellFormed : left.WellFormed) : Equal left left where
  wellFormed := wellFormed
  otherWellFormed := wellFormed
  labels name := by
    cases found : left.find? name with
    | none => exact .none
    | some label =>
      obtain ⟨_, present, -⟩ := (wellFormed.registered found).body
      have alike := Table.alike_of_extends (Table.extends_refl _) wellFormed.table
        (Table.lt_size_of_get? present)
      exact .some ⟨⟨rfl, alike⟩, rfl⟩

theorem symm (equal : Equal left right) : Equal right left where
  wellFormed := equal.otherWellFormed
  otherWellFormed := equal.wellFormed
  labels name := by
    have related := equal.labels name
    generalize left.find? name = first, right.find? name = second at related ⊢
    cases related with
    | none => exact .none
    | some same =>
      exact .some ⟨⟨same.signature.symm, same.body.symm equal.wellFormed.table⟩, same.external.symm⟩

theorem mem_names (equal : Equal left right) (known : name ∈ left.names) : name ∈ right.names := by
  obtain ⟨label, found⟩ := mem_names_iff.mp known
  obtain ⟨other, foundOther, -⟩ := equal.exists_label found
  exact mem_names_iff.mpr ⟨other, foundOther⟩

/-- The labels of the other program in the order of the labels of this one. -/
theorem exists_matching (equal : Equal left right) :
    ∃ matching, List.Perm matching right.labels ∧ List.Forall₂ (fun label other =>
      label.name = other.name ∧ label.Same left.table right.table other) left.labels matching := by
  refine Results.exists_perm_of_oneToOne (List.Nodup.of_map _ equal.wellFormed.names)
    (List.Nodup.of_map _ equal.otherWellFormed.names) (fun label member => ?_)
    (fun other member => ?_) (fun label member one isOne _ related relatedOne => ?_)
    fun _ other member one isOne related relatedOne => ?_
  · obtain ⟨other, foundOther, same⟩ :=
      equal.exists_label (find?_of_mem equal.wellFormed.names member)
    exact ⟨other, mem_of_find? foundOther, (name_of_find? foundOther).symm, same⟩
  · have foundOther := find?_of_mem equal.otherWellFormed.names member
    obtain ⟨label, found, -⟩ := equal.symm.exists_label foundOther
    obtain ⟨again, foundAgain, same⟩ := equal.exists_label found
    rw [foundOther] at foundAgain
    cases foundAgain
    exact ⟨label, mem_of_find? found, name_of_find? found, same⟩
  · exact List.inj_on_of_nodup_map equal.wellFormed.names member isOne
      (related.1.trans relatedOne.1.symm)
  · exact List.inj_on_of_nodup_map equal.otherWellFormed.names member isOne
      (related.1.symm.trans relatedOne.1)

/-- Equal programs agree on all names. -/
theorem agreeOn (equal : Equal left right) : AgreeOn (fun _ => True) left right where
  wellFormed := equal.wellFormed
  otherWellFormed := equal.otherWellFormed
  labels name _ := by
    have related := equal.labels name
    generalize left.find? name = first, right.find? name = second at related ⊢
    cases related with
    | none => exact .none
    | some same => exact .some same.toAlike
  named _ _ := trivial
  mentioned _ _ _ _ := trivial

/-- Equal programs run alike, from whatever label and with whatever arguments. -/
theorem run_eq (equal : Equal left right) (entry : Name) (arguments : List Value)
    (halts : List Name) (limit : Option UInt64) :
    left.run entry arguments halts limit = right.run entry arguments halts limit :=
  equal.agreeOn.run_eq (fun _ _ => trivial) trivial (fun argument _ =>
    argument.within_of_forall (fun _ => trivial) fun _ => trivial) halts limit

/-! ## Traversing equal programs -/

/-- Labels of the same name have continuations of equal structure. -/
theorem node_alike (equal : Equal left right) (found : left.find? name = some label)
    (foundOther : right.find? name = some other) (same : label.Same left.table right.table other) :
    left.table.Alike right.table label.node other.node := by
  refine .node (equal.wellFormed.registered found).node (equal.otherWellFormed.registered
    foundOther).node ?_ (.cons same.body .nil)
  rw [name_of_find? found, name_of_find? foundOther, same.signature]
  rfl

/-- Labels of the same name have parameters of equal structure. -/
theorem parameters_alike (equal : Equal left right) (found : left.find? name = some label)
    (foundOther : right.find? name = some other) (same : label.Same left.table right.table other) :
    List.Forall₂ (left.table.Alike right.table) label.parameters other.parameters := by
  have registered := equal.wellFormed.registered found
  have otherRegistered := equal.otherWellFormed.registered foundOther
  have length : label.parameters.length = other.parameters.length := by
    rw [registered.length_parameters, otherRegistered.length_parameters, Label.arity, Label.arity,
      same.signature]
  refine List.forall₂_iff_get.mpr ⟨length, fun index inRange otherInRange => ?_⟩
  have atIndex := registered.get?_parameter (List.getElem?_eq_getElem inRange)
  have otherAtIndex := otherRegistered.get?_parameter (List.getElem?_eq_getElem otherInRange)
  rw [name_of_find? found] at atIndex
  rw [name_of_find? foundOther] at otherAtIndex
  exact .node atIndex otherAtIndex rfl .nil

theorem exists_parameter (equal : Equal left right) {index : Nat}
    (known : ∃ handle, left.parameter name index = .ok handle) :
    ∃ handle, right.parameter name index = .ok handle := by
  obtain ⟨label, found, inRange⟩ := equal.wellFormed.exists_parameter_iff.mp known
  obtain ⟨other, foundOther, same⟩ := equal.exists_label found
  refine equal.otherWellFormed.exists_parameter_iff.mpr ⟨other, foundOther, ?_⟩
  rwa [Label.arity, ← same.signature]

/-- Nodes of equal structure lead to nodes of equal structure. -/
theorem exists_leads (equal : Equal left right) {node otherNode : Node} {found : List Handle}
    (parallel : node.Parallel (left.table.Alike right.table) otherNode)
    (leads : left.Leads node found) :
    ∃ others, right.Leads otherNode others ∧
      List.Forall₂ (left.table.Alike right.table) found others := by
  cases parallel with
  | continuation atBody =>
    cases leads with
    | continuation found =>
      obtain ⟨other, foundOther, same⟩ := equal.exists_label found
      exact ⟨_, .continuation foundOther, .cons atBody (equal.parameters_alike found foundOther same)⟩
  | call atCallee atArguments =>
    cases leads with
    | call => exact ⟨_, .call _ _, .cons atCallee atArguments⟩
  | branch atArguments =>
    cases leads with
    | branch arity => exact ⟨_, .branch (atArguments.length_eq ▸ arity), atArguments⟩
  | primitive atOperands =>
    cases leads with
    | primitive => exact ⟨_, .primitive _ _, atOperands⟩
  | abstraction target =>
    cases leads with
    | abstraction found =>
      obtain ⟨other, foundOther, same⟩ := equal.exists_label found
      exact ⟨_, .abstraction foundOther, .cons (equal.node_alike found foundOther same) .nil⟩
  | parameter target index =>
    cases leads with
    | parameter known => exact ⟨[], .parameter (equal.exists_parameter known), .nil⟩
  | quote literal =>
    cases leads with
    | quote => exact ⟨[], .quote literal, .nil⟩
  | cast atSource =>
    cases leads with
    | cast => exact ⟨_, .cast _ _, .cons atSource .nil⟩

theorem exists_successors (equal : Equal left right) (alike : left.table.Alike right.table x y)
    {found : List Handle} (edges : left.successors x = .ok found) :
    ∃ others, right.successors y = .ok others ∧
      List.Forall₂ (left.table.Alike right.table) found others := by
  obtain ⟨node, present, leads⟩ := successors_eq_ok_iff.mp edges
  obtain ⟨otherNode, atY, parallel⟩ := alike.exists_parallel present
  obtain ⟨others, otherLeads, related⟩ := equal.exists_leads parallel leads
  exact ⟨others, successors_eq_ok_iff.mpr ⟨otherNode, atY, otherLeads⟩, related⟩

/-- What can be reached in one program can be reached in the other. -/
theorem exists_reached (equal : Equal left right) (reached : left.Reached x) :
    ∃ y, right.Reached y ∧ left.table.Alike right.table x y := by
  obtain ⟨label, member, reached⟩ := reached
  have found := find?_of_mem equal.wellFormed.names member
  obtain ⟨other, foundOther, same⟩ := equal.exists_label found
  have otherMember := mem_of_find? foundOther
  rcases reached with rfl | isParameter | inside
  · exact ⟨other.node, ⟨other, otherMember, .inl rfl⟩, equal.node_alike found foundOther same⟩
  · obtain ⟨parameter, isOther, alike⟩ :=
      Results.exists_right_of_mem (equal.parameters_alike found foundOther same) isParameter
    exact ⟨parameter, ⟨other, otherMember, .inr (.inl isOther)⟩, alike⟩
  · obtain ⟨part, otherInside, alike⟩ := same.body.exists_part equal.wellFormed.table
      equal.otherWellFormed.table inside
    exact ⟨part, ⟨other, otherMember, .inr (.inr otherInside)⟩, alike⟩

/-- Equal programs pass validation alike. -/
theorem resolved (equal : Equal left right) (resolved : left.Resolved) : right.Resolved := by
  intro y reached
  obtain ⟨x, reachedX, alike⟩ := equal.symm.exists_reached reached
  obtain ⟨found, edges⟩ := resolved x reachedX
  obtain ⟨others, otherEdges, -⟩ :=
    equal.exists_successors (alike.symm equal.otherWellFormed.table) edges
  exact ⟨others, otherEdges⟩

end Equal

end Program

end CpsGraph
