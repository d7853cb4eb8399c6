import CpsGraph.Proofs.ReadDrawings
import CpsGraph.Proofs.SearchResults
import CpsGraph.Proofs.WellFormed
import CpsGraph.Samples
import Mathlib.Data.List.Nodup
import Mathlib.Order.Bounds.Basic

/-! # Drawn programs

The text that draws a program can be read back, and the drawing that is read is complete: it declares
the nodes of the least set that holds the roots and all that is drawn along with a member, each once,
and its edges are the arrows of these nodes, each once. Since an arrow lies between the node that draws
it and a node that is drawn along, no edge ends at a node that is not declared.

That no edge is drawn twice needs an argument, since a call takes its arguments by arrows that point to
it, and may take the same argument twice: the head of an arrow tells which of its ends draws it, and its
caption tells it from the other arrows of that node.
-/

namespace CpsGraph

namespace Dot

/-- The name of a node in a drawing. -/
def nodeName (handle : Handle) : String := s!"n{handle}"

/-- The edge that an arrow is drawn as. -/
def Arrow.link (arrow : Arrow) : Link :=
  ⟨nodeName arrow.source, nodeName arrow.target, ("arrowhead", arrow.kind.head) ::
    (arrow.caption.toList.map ("label", ·) ++ [("fontsize", "8"), ("fontcolor", "grey")])⟩

/-- What the line of a statement says. -/
def Statement.entry : Statement → Entry
  | .node handle caption appearance => .node (nodeName handle) [("label", caption),
      ("shape", appearance.shape), ("color", appearance.color), ("style", appearance.style)]
  | .arrow drawn => .edge drawn.link

/-- A statement in which only the caption of a node needs protection. -/
def Statement.Plain : Statement → Prop
  | .node _ _ appearance =>
    IsWord appearance.shape ∧ IsWord appearance.color ∧ IsWord appearance.style
  | .arrow drawn => ∀ caption ∈ drawn.caption, Text.escape caption = caption

theorem nodeName_injective : Function.Injective nodeName :=
  fun _ _ same => Text.append_number_inj.mp same

theorem toList_nodeName (handle : Handle) : (nodeName handle).toList = 'n' :: (toString handle).toList :=
  String.toList_append

theorem isWord_nodeName (handle : Handle) : IsWord (nodeName handle) := by
  rw [IsWord, toList_nodeName]
  refine ⟨List.cons_ne_nil _ _, List.forall_mem_cons.mpr ⟨by decide, fun c member => ?_⟩⟩
  simp [isWordChar, Char.isAlphanum, Text.isDigit_of_mem_number member]

/-- The line of a node is read as its entry. -/
theorem scans_node (handle : Handle) (caption : String) {appearance : Appearance}
    (plain : (Statement.node handle caption appearance).Plain) :
    Scans .between .between (Statement.node handle caption appearance).render.toList
      (Statement.node handle caption appearance).entry.line := by
  obtain ⟨shape, color, style⟩ := plain
  have written : (Statement.node handle caption appearance).render = "    n" ++ toString handle ++
      " [label=\"" ++ Text.escape caption ++ "\", shape=" ++ appearance.shape ++ ", color=" ++
      appearance.color ++ ", style=" ++ appearance.style ++ "];\n" := rfl
  have ended : Scans .between .between "];\n".toList [.mark ']', .mark ';'] := ⟨fun _ => rfl⟩
  have beforeStyle : Scans .between .between ", style=".toList [.mark ',', .id "style", .mark '='] :=
    ⟨fun _ => rfl⟩
  have beforeColor : Scans .between .between ", color=".toList [.mark ',', .id "color", .mark '='] :=
    ⟨fun _ => rfl⟩
  have beforeShape : Scans .between .between ", shape=".toList [.mark ',', .id "shape", .mark '='] :=
    ⟨fun _ => rfl⟩
  have looks := beforeShape.append (.bare shape rfl (beforeColor.append (.bare color rfl
    (beforeStyle.append (.bare style rfl ended)))))
  have whole := Scans.indent.append (.bare (isWord_nodeName handle) rfl
    (Scans.label.append (.quoted caption looks)))
  simpa [written, toList_nodeName, Statement.entry, Entry.line, Entry.tokens, attributeTokens] using whole

/-- The line of an arrow is read as its entry. -/
theorem scans_arrow {arrow : Arrow} (plain : (Statement.arrow arrow).Plain) :
    Scans .between .between (Statement.arrow arrow).render.toList
      (Statement.arrow arrow).entry.line := by
  have written : (Statement.arrow arrow).render = "    n" ++ toString arrow.source ++ " -> n" ++
      toString arrow.target ++ " [arrowhead=" ++ arrow.kind.head ++
      arrow.caption.elim "" (fun caption => ", label=\"" ++ caption ++ "\"") ++
      ", fontsize=8, fontcolor=grey];\n" := rfl
  have ended : Scans .between .between ", fontsize=8, fontcolor=grey];\n".toList
      (.mark ',' :: (attributeTokens [("fontsize", "8"), ("fontcolor", "grey")] ++ [.mark ';'])) :=
    ⟨fun _ => rfl⟩
  have beforeLabel : Scans .between .between ", label=".toList [.mark ',', .id "label", .mark '='] :=
    ⟨fun _ => rfl⟩
  have beforeHead : Scans .between .between " [arrowhead=".toList
      [.mark '[', .id "arrowhead", .mark '='] := ⟨fun _ => rfl⟩
  have head : IsWord arrow.kind.head := by cases arrow.kind <;> decide
  have fromHead {chars : List Char} {tokens : List Token} (ends : chars.head?.map isWordChar = some false)
      (scans : Scans .between .between chars tokens) :=
    Scans.indent.append (.bare (isWord_nodeName arrow.source) rfl (Scans.arrow.append
      (.bare (isWord_nodeName arrow.target) rfl (beforeHead.append (.bare head ends scans)))))
  cases captioned : arrow.caption with
  | none =>
    simpa [written, captioned, toList_nodeName, Statement.entry, Arrow.link, Entry.line, Entry.tokens,
      attributeTokens] using fromHead rfl ended
  | some caption =>
    have whole := fromHead rfl (beforeLabel.append (.quoted caption ended))
    rw [plain caption captioned] at whole
    simpa [written, captioned, toList_nodeName, Statement.entry, Arrow.link, Entry.line, Entry.tokens,
      attributeTokens] using whole

theorem scans_statement {statement : Statement} (plain : statement.Plain) :
    Scans .between .between statement.render.toList statement.entry.line := by
  cases statement with
  | node handle caption appearance => exact scans_node handle caption plain
  | arrow arrow => exact scans_arrow plain

theorem mem_numbered_iff {word caption : String} {handles : List Handle} {handle : Handle} :
    (handle, caption) ∈ numbered word handles ↔
      ∃ index : Nat, handles[index]? = some handle ∧ caption = word ++ toString index := by
  simp only [numbered, List.mem_map, Prod.exists, Prod.mk.injEq, List.mk_mem_zipIdx_iff_getElem?]
  constructor
  · rintro ⟨_, index, atIndex, rfl, rfl⟩
    exact ⟨index, atIndex, rfl⟩
  · rintro ⟨index, atIndex, rfl⟩
    exact ⟨handle, index, atIndex, rfl, rfl⟩

/-- The captions of numbered arrows are all different. -/
theorem nodup_numbered (word : String) (handles : List Handle) {draw : Handle × String → Arrow}
    (captioned : ∀ pair, (draw pair).caption = some pair.2) :
    (((numbered word handles).map draw).map (·.caption)).Nodup := by
  have captions : ((numbered word handles).map draw).map (·.caption) =
      (List.range' 0 handles.length).map fun index : Nat => some (word ++ toString index) := by
    rw [← List.zipIdx_map_snd, numbered, List.map_map, List.map_map, List.map_map]
    exact List.map_congr_left fun pair _ => captioned _
  rw [captions]
  exact List.Nodup.map (fun _ _ same => Text.append_number_inj.mp (Option.some.inj same))
    List.nodup_range'

/-- The caption of an edge. -/
def Link.caption (link : Link) : Option String := link.attributes.lookup "label"

/-- The node that draws an edge: its source, or its target if it shows an argument. -/
def Link.owner (link : Link) : String :=
  if link.attributes.lookup "arrowhead" = some "empty" then link.target else link.source

theorem Arrow.caption_link (arrow : Arrow) : arrow.link.caption = arrow.caption := by
  unfold Arrow.link Link.caption
  cases arrow.caption <;> rfl

end Dot

namespace Program

open Dot

variable {program : Program} {handle next : Handle} {arrow : Arrow}

/-- The nodes that are drawn along with a node: its children, the parameters of a continuation, and the
continuation to which an abstraction or a parameter belongs. -/
inductive DrawsAlong (program : Program) (handle : Handle) : Handle → Prop
  | child {node : Node} {child : Handle} (present : program.table.get? handle = some node)
      (isChild : child ∈ node.children) : DrawsAlong program handle child
  | parameter {name : Name} {signature : Signature} {body : Handle} {label : Label} {parameter : Handle}
      (present : program.table.get? handle = some (.continuation name signature body))
      (found : program.find? name = some label) (isParameter : parameter ∈ label.parameters) :
      DrawsAlong program handle parameter
  | target {target : Name} {label : Label}
      (present : program.table.get? handle = some (.abstraction target))
      (found : program.find? target = some label) : DrawsAlong program handle label.node
  | owner {target : Name} {index : Nat} {label : Label}
      (present : program.table.get? handle = some (.parameter target index))
      (found : program.find? target = some label) : DrawsAlong program handle label.node

/-- A set of nodes holds what a drawing begins with, the external labels or, if there is none, all
labels, and what is drawn along. -/
structure ClosedForDrawing (program : Program) (nodes : Set Handle) : Prop where
  roots : ∀ label ∈ program.labels,
    (label.external = true ∨ ∀ other ∈ program.labels, other.external = false) → label.node ∈ nodes
  along : ∀ handle ∈ nodes, ∀ next, program.DrawsAlong handle next → next ∈ nodes

/-- The arrows of a node: to its body, its callee, its operands, its source and its target, and from its
arguments. -/
inductive Draws (program : Program) (handle : Handle) : Arrow → Prop
  | body {name : Name} {signature : Signature} {body : Handle}
      (present : program.table.get? handle = some (.continuation name signature body)) :
      Draws program handle ⟨handle, body, .continuationBody, none⟩
  | callee {callee : Handle} {arguments : List Handle}
      (present : program.table.get? handle = some (.call callee arguments)) :
      Draws program handle ⟨handle, callee, .controlFlow, none⟩
  | callArgument {callee argument : Handle} {arguments : List Handle} {index : Nat}
      (present : program.table.get? handle = some (.call callee arguments))
      (atIndex : arguments[index]? = some argument) :
      Draws program handle ⟨argument, handle, .argumentOf, some ("arg" ++ toString index)⟩
  | branchArgument {argument : Handle} {arguments : List Handle} {index : Nat}
      (present : program.table.get? handle = some (.branch arguments))
      (atIndex : arguments[index]? = some argument) :
      Draws program handle ⟨argument, handle, .argumentOf, some ("arg" ++ toString index)⟩
  | operand {op : Operator} {operand : Handle} {operands : List Handle} {index : Nat}
      (present : program.table.get? handle = some (.primitive op operands))
      (atIndex : operands[index]? = some operand) :
      Draws program handle ⟨handle, operand, .dataDependency, some ("op" ++ toString index)⟩
  | source {source : Handle} {ty : Ty} (present : program.table.get? handle = some (.cast source ty)) :
      Draws program handle ⟨handle, source, .dataDependency, none⟩
  | target {target : Name} {label : Label}
      (present : program.table.get? handle = some (.abstraction target))
      (found : program.find? target = some label) :
      Draws program handle ⟨handle, label.node, .dataDependency, none⟩
  | owner {target : Name} {index : Nat} {label : Label}
      (present : program.table.get? handle = some (.parameter target index))
      (found : program.find? target = some label) :
      Draws program handle ⟨handle, label.node, .parameterOf, none⟩

/-! ## Nodes -/

/-- The search for the nodes of a drawing goes where nodes are drawn along. -/
theorem mem_dotEdges_iff {found : List Handle} (edges : program.dotEdges handle = .ok found) :
    next ∈ found ↔ program.DrawsAlong handle next := by
  obtain ⟨node, present, edges⟩ := Results.bind_eq_ok_iff.mp edges
  rw [Table.get_eq_ok_iff] at present
  cases node with
  | continuation name signature body =>
    obtain ⟨label, resolved, edges⟩ := Results.bind_eq_ok_iff.mp edges
    rw [resolve_eq_ok_iff] at resolved
    cases edges
    rw [List.mem_append]
    constructor
    · rintro (isParameter | isBody)
      · exact .parameter present resolved isParameter
      · exact .child present isBody
    · rintro (⟨again, isChild⟩ | ⟨again, found, isParameter⟩ | ⟨again, -⟩ | ⟨again, -⟩) <;>
        cases present.symm.trans again
      · exact .inr isChild
      · cases resolved.symm.trans found
        exact .inl isParameter
  | abstraction target =>
    obtain ⟨label, resolved, edges⟩ := Results.bind_eq_ok_iff.mp edges
    rw [resolve_eq_ok_iff] at resolved
    cases edges
    rw [List.mem_singleton]
    constructor
    · rintro rfl
      exact .target present resolved
    · rintro (⟨again, isChild⟩ | ⟨again, -⟩ | ⟨again, found⟩ | ⟨again, -⟩) <;>
        cases present.symm.trans again
      · cases isChild
      · cases resolved.symm.trans found
        rfl
  | parameter target index =>
    -- That the label has such a parameter is checked first, and adds nothing to what is found.
    obtain ⟨_, -, edges⟩ := Results.bind_eq_ok_iff.mp edges
    obtain ⟨label, resolved, edges⟩ := Results.bind_eq_ok_iff.mp edges
    rw [resolve_eq_ok_iff] at resolved
    cases edges
    rw [List.mem_singleton]
    constructor
    · rintro rfl
      exact .owner present resolved
    · rintro (⟨again, isChild⟩ | ⟨again, -⟩ | ⟨again, -⟩ | ⟨again, found⟩) <;>
        cases present.symm.trans again
      · cases isChild
      · cases resolved.symm.trans found
        rfl
  | call | branch | primitive | quote | cast =>
    cases edges
    constructor
    · exact .child present
    · rintro (⟨again, isChild⟩ | ⟨again, -⟩ | ⟨again, -⟩ | ⟨again, -⟩) <;>
        cases present.symm.trans again
      exact isChild

theorem mem_dotRoots_iff : handle ∈ program.dotRoots ↔ ∃ label ∈ program.labels,
    (label.external = true ∨ ∀ other ∈ program.labels, other.external = false) ∧
      label.node = handle := by
  have noneExternal : program.externals.isEmpty = true ↔
      ∀ label ∈ program.labels, label.external = false := by
    simp [externals]
  rw [dotRoots]
  split_ifs with alone
  · rw [noneExternal] at alone
    simp only [List.mem_map]
    exact exists_congr fun label => and_congr_right fun _ => (and_iff_right (.inr alone)).symm
  · rw [noneExternal] at alone
    simp [externals, alone, and_assoc]

/-- The nodes of a drawing are the least set that holds what it has to. -/
theorem isLeast_dotWalk (faultless : program.dotWalk.fault = none) :
    IsLeast {nodes | program.ClosedForDrawing nodes} {handle | handle ∈ program.dotWalk.order} := by
  refine ⟨⟨fun label member isRoot => ?_, fun handle visited next along => ?_⟩,
    fun nodes closed => ?_⟩
  · have root := mem_dotRoots_iff.mpr ⟨label, member, isRoot, rfl⟩
    exact (Search.mem_order_of_mem_frontier faultless root).resolve_left List.not_mem_nil
  · obtain ⟨found, edges, -⟩ := Search.mem_order_of_mem_edges faultless visited
    rw [Search.edgesBelow_eq_ok_iff] at edges
    exact Search.mem_order_of_successors faultless visited edges.2 next
      ((mem_dotEdges_iff edges.2).mpr along)
  · refine Search.forall_mem_order (fun handle root => ?_) fun handle found inside edges next member => ?_
    · obtain ⟨label, member, isRoot, rfl⟩ := mem_dotRoots_iff.mp root
      exact closed.roots label member isRoot
    · rw [Search.edgesBelow_eq_ok_iff] at edges
      exact closed.along handle inside next ((mem_dotEdges_iff edges.2).mp member)

/-! ## Arrows -/

/-- The arrows that are written for a handle, none if there is no node. -/
def arrowsOf (program : Program) (handle : Handle) : List Arrow :=
  (program.table.get? handle).toList.flatMap (program.dotArrows handle)

/-- The arrows that are written for a node are those it draws. -/
theorem mem_arrowsOf_iff : arrow ∈ program.arrowsOf handle ↔ program.Draws handle arrow := by
  constructor
  · intro member
    obtain ⟨node, present, member⟩ := List.mem_flatMap.mp member
    rw [Option.mem_toList] at present
    cases node with
    | continuation name signature body =>
      cases List.mem_singleton.mp member
      exact .body present
    | call callee arguments =>
      rcases List.mem_cons.mp member with rfl | member
      · exact .callee present
      · obtain ⟨⟨argument, caption⟩, isNumbered, rfl⟩ := List.mem_map.mp member
        obtain ⟨index, atIndex, rfl⟩ := mem_numbered_iff.mp isNumbered
        exact .callArgument present atIndex
    | branch arguments =>
      obtain ⟨⟨argument, caption⟩, isNumbered, rfl⟩ := List.mem_map.mp member
      obtain ⟨index, atIndex, rfl⟩ := mem_numbered_iff.mp isNumbered
      exact .branchArgument present atIndex
    | primitive op operands =>
      obtain ⟨⟨operand, caption⟩, isNumbered, rfl⟩ := List.mem_map.mp member
      obtain ⟨index, atIndex, rfl⟩ := mem_numbered_iff.mp isNumbered
      exact .operand present atIndex
    | abstraction target =>
      obtain ⟨label, found, rfl⟩ := List.mem_map.mp member
      exact .target present (Option.mem_toList.mp found)
    | parameter target index =>
      obtain ⟨label, found, rfl⟩ := List.mem_map.mp member
      exact .owner present (Option.mem_toList.mp found)
    | quote literal => cases member
    | cast source ty =>
      cases List.mem_singleton.mp member
      exact .source present
  · rintro (present | present | ⟨present, atIndex⟩ | ⟨present, atIndex⟩ | ⟨present, atIndex⟩ | present |
        ⟨present, found⟩ | ⟨present, found⟩) <;>
      refine List.mem_flatMap.mpr ⟨_, Option.mem_toList.mpr present, ?_⟩
    · exact List.mem_singleton_self _
    · exact List.mem_cons_self
    · exact List.mem_cons_of_mem _ (List.mem_map_of_mem (mem_numbered_iff.mpr ⟨_, atIndex, rfl⟩))
    · exact List.mem_map_of_mem (mem_numbered_iff.mpr ⟨_, atIndex, rfl⟩)
    · exact List.mem_map_of_mem (mem_numbered_iff.mpr ⟨_, atIndex, rfl⟩)
    · exact List.mem_singleton_self _
    · exact List.mem_map_of_mem (Option.mem_toList.mpr found)
    · exact List.mem_map_of_mem (Option.mem_toList.mpr found)

namespace Draws

/-- An arrow lies between the node that draws it and a node that is drawn along. -/
theorem along (draws : program.Draws handle arrow) :
    arrow.source = handle ∧ program.DrawsAlong handle arrow.target ∨
      arrow.target = handle ∧ program.DrawsAlong handle arrow.source := by
  cases draws with
  | body present => exact .inl ⟨rfl, .child present List.mem_cons_self⟩
  | callee present => exact .inl ⟨rfl, .child present List.mem_cons_self⟩
  | callArgument present atIndex =>
    exact .inr ⟨rfl, .child present (List.mem_cons_of_mem _ (List.mem_of_getElem? atIndex))⟩
  | branchArgument present atIndex => exact .inr ⟨rfl, .child present (List.mem_of_getElem? atIndex)⟩
  | operand present atIndex => exact .inl ⟨rfl, .child present (List.mem_of_getElem? atIndex)⟩
  | source present => exact .inl ⟨rfl, .child present List.mem_cons_self⟩
  | target present found => exact .inl ⟨rfl, .target present found⟩
  | owner present found => exact .inl ⟨rfl, .owner present found⟩

/-- The head of an arrow tells which of its ends draws it. -/
theorem owner_link (draws : program.Draws handle arrow) : arrow.link.owner = nodeName handle := by
  cases draws <;> rfl

/-- The captions of arrows need no protection. -/
theorem plain (draws : program.Draws handle arrow) : (Statement.arrow arrow).Plain := by
  have numbered {word : String} (isPlain : word.toList.any Text.needsProtection = false)
      (index : Nat) : Text.escape (word ++ toString index) = word ++ toString index := by
    rw [Text.escape_append, Text.escape_of_plain isPlain, Text.escape_of_plain (Text.plain_number _)]
  intro caption captioned
  cases draws <;> cases captioned <;> exact numbered (by decide) _

end Draws

/-- The arrows of a node differ in their captions. -/
theorem nodup_captions (program : Program) (handle : Handle) :
    ((program.arrowsOf handle).map (·.caption)).Nodup := by
  have ofLabel (label? : Option Label) {draw : Label → Arrow} :
      ((label?.toList.map draw).map (·.caption)).Nodup := by
    cases label? with
    | none => exact List.nodup_nil
    | some label => exact List.nodup_singleton _
  unfold arrowsOf
  cases program.table.get? handle with
  | none => exact List.nodup_nil
  | some node =>
    rw [Option.toList_some, List.flatMap_singleton]
    cases node with
    | continuation | cast => exact List.nodup_singleton _
    | quote => exact List.nodup_nil
    | call callee arguments =>
      refine List.nodup_cons.mpr ⟨fun uncaptioned => ?_, nodup_numbered _ _ fun _ => rfl⟩
      simp at uncaptioned
    | branch | primitive => exact nodup_numbered _ _ fun _ => rfl
    | abstraction | parameter => exact ofLabel _

/-- An edge of a drawing tells which node draws it, and as which of its arrows. -/
theorem Draws.unique {other : Handle} {otherArrow : Arrow} (draws : program.Draws handle arrow)
    (otherDraws : program.Draws other otherArrow) (same : arrow.link = otherArrow.link) :
    handle = other ∧ arrow = otherArrow := by
  obtain rfl : handle = other := by
    apply nodeName_injective
    rw [← draws.owner_link, same, otherDraws.owner_link]
  have captions : arrow.caption = otherArrow.caption := by
    rw [← arrow.caption_link, same, otherArrow.caption_link]
  exact ⟨rfl, List.inj_on_of_nodup_map (program.nodup_captions handle)
    (mem_arrowsOf_iff.mpr draws) (mem_arrowsOf_iff.mpr otherDraws) captions⟩

/-! ## The drawing -/

theorem isWord_dotAppearance (program : Program) (node : Node) :
    IsWord (program.dotAppearance node).shape ∧ IsWord (program.dotAppearance node).color ∧
      IsWord (program.dotAppearance node).style := by
  cases node with
  | continuation =>
    dsimp only [dotAppearance]
    split_ifs <;> decide
  | _ =>
    dsimp only [dotAppearance]
    decide

theorem plain_of_mem_dotStatements {statement : Statement}
    (member : statement ∈ program.dotStatements handle) : statement.Plain := by
  unfold dotStatements at member
  split at member
  next node present =>
    rcases List.mem_cons.mp member with rfl | member
    · exact program.isWord_dotAppearance node
    · obtain ⟨arrow, isDrawn, rfl⟩ := List.mem_map.mp member
      exact (mem_arrowsOf_iff.mp
        (List.mem_flatMap.mpr ⟨node, Option.mem_toList.mpr present, isDrawn⟩)).plain
  next => cases member

/-- The drawing that shows some nodes. -/
def drawing (program : Program) (order : List Handle) : Drawing :=
  ⟨"Program", .setting "bgcolor" "transparent" ::
    (order.flatMap program.dotStatements).map Statement.entry⟩

/-- The text of a program is read as the drawing of the nodes that were reached. -/
theorem read?_toDot {text : String} (drawn : program.toDot = .ok text) :
    program.dotWalk.fault = none ∧
      Drawing.read? text = some (program.drawing program.dotWalk.order) := by
  unfold toDot at drawn
  split at drawn
  · cases drawn
  next faultless =>
    cases drawn
    refine ⟨faultless, ?_⟩
    have lines : program.dotText = header "Program" ++ String.join
        ((program.dotWalk.order.flatMap program.dotStatements).map Statement.render) ++ footer := by
      simp [dotText, dotGraph, faultless]
    rw [lines]
    refine Drawing.read?_written (by decide) (Scans.join fun statement member => scans_statement ?_)
    obtain ⟨handle, -, member⟩ := List.mem_flatMap.mp member
    exact plain_of_mem_dotStatements member

variable {order : List Handle}

/-- A drawing declares each of its nodes once. -/
theorem declared_drawing (inRange : ∀ handle ∈ order, handle < program.size) :
    (program.drawing order).declared = order.map nodeName := by
  have ofNode : ∀ handle ∈ order, ((program.dotStatements handle).map Statement.entry).filterMap
      Entry.declared? = [nodeName handle] := by
    intro handle member
    obtain ⟨node, present⟩ := Table.exists_get?_of_lt (inRange handle member)
    have arrows : (program.dotArrows handle node).filterMap
        (Entry.declared? ∘ Statement.entry ∘ Statement.arrow) = [] :=
      List.filterMap_eq_nil_iff.mpr fun _ _ => rfl
    simp only [dotStatements, present]
    rw [List.map_cons, List.map_map, List.filterMap_cons, List.filterMap_map, arrows]
    rfl
  calc (program.drawing order).declared
      = ((order.flatMap program.dotStatements).map Statement.entry).filterMap Entry.declared? := rfl
    _ = order.flatMap fun handle => [nodeName handle] := by
      rw [List.map_flatMap, List.filterMap_flatMap]
      exact List.flatMap_congr ofNode
    _ = order.map nodeName := by rw [List.map_eq_flatMap]

/-- The edges of a drawing are the arrows of its nodes. -/
theorem links_drawing : (program.drawing order).links =
    order.flatMap fun handle => (program.arrowsOf handle).map Arrow.link := by
  have ofNode (handle : Handle) : ((program.dotStatements handle).map Statement.entry).filterMap
      Entry.link? = (program.arrowsOf handle).map Arrow.link := by
    unfold dotStatements arrowsOf
    cases program.table.get? handle with
    | none => rfl
    | some node =>
      rw [Option.toList_some, List.flatMap_singleton, List.map_cons, List.filterMap_cons_none rfl,
        List.map_map, List.filterMap_map]
      exact congrFun List.filterMap_eq_map _
  calc (program.drawing order).links
      = ((order.flatMap program.dotStatements).map Statement.entry).filterMap Entry.link? := rfl
    _ = order.flatMap fun handle => (program.arrowsOf handle).map Arrow.link := by
      rw [List.map_flatMap, List.filterMap_flatMap]
      exact List.flatMap_congr fun handle _ => ofNode handle

theorem mem_links_drawing_iff {link : Link} : link ∈ (program.drawing order).links ↔
    ∃ handle ∈ order, ∃ arrow, program.Draws handle arrow ∧ arrow.link = link := by
  simp only [links_drawing, List.mem_flatMap, List.mem_map, mem_arrowsOf_iff]

/-- No edge is drawn twice. -/
theorem nodup_links_drawing (distinct : order.Nodup) : (program.drawing order).links.Nodup := by
  rw [links_drawing, List.nodup_flatMap]
  -- The edges of one node differ in their captions, those of two nodes in the node that draws them.
  constructor
  · intro handle _
    apply List.Nodup.of_map Link.caption
    rw [List.map_map]
    simpa only [Function.comp_def, Arrow.caption_link] using program.nodup_captions handle
  · refine distinct.imp fun {handle other} differ link member otherMember => differ ?_
    obtain ⟨arrow, draws, rfl⟩ := List.mem_map.mp member
    obtain ⟨otherArrow, otherDraws, same⟩ := List.mem_map.mp otherMember
    rw [mem_arrowsOf_iff] at draws otherDraws
    exact (draws.unique otherDraws same.symm).1

/-- The text of a program declares exactly one node for each member of the least set that a drawing has
to show. Both ends of every edge are declared, every arrow of a declared node is drawn exactly once, and
every edge is drawn as exactly one arrow of one declared node. -/
theorem toDot_complete {text : String} (drawn : program.toDot = .ok text) :
    ∃ (order : List Handle) (drawing : Drawing),
      IsLeast {nodes | program.ClosedForDrawing nodes} {handle | handle ∈ order} ∧
      Drawing.read? text = some drawing ∧
      drawing.declared = order.map nodeName ∧ drawing.declared.Nodup ∧
      (∀ link ∈ drawing.links, link.source ∈ drawing.declared ∧ link.target ∈ drawing.declared) ∧
      (∀ handle ∈ order, ∀ arrow, program.Draws handle arrow → drawing.links.count arrow.link = 1) ∧
      ∀ link ∈ drawing.links, ∃! drawn : Handle × Arrow,
        drawn.1 ∈ order ∧ program.Draws drawn.1 drawn.2 ∧ drawn.2.link = link := by
  obtain ⟨faultless, read⟩ := read?_toDot drawn
  have least := isLeast_dotWalk faultless
  have distinct := (Search.nodup_order .depthFirst program.size program.dotEdges program.dotRoots []).1
  have declared : (program.drawing program.dotWalk.order).declared = _ :=
    declared_drawing fun handle => Search.lt_of_mem_order
  refine ⟨program.dotWalk.order, _, least, read, declared, ?_, fun link member => ?_,
    fun handle inside arrow draws => ?_, fun link member => ?_⟩
  · rw [declared]
    exact distinct.map nodeName_injective
  · obtain ⟨handle, inside, arrow, draws, rfl⟩ := mem_links_drawing_iff.mp member
    rw [declared]
    rcases draws.along with ⟨source, along⟩ | ⟨target, along⟩
    · have target := least.1.along handle inside _ along
      exact ⟨List.mem_map_of_mem (source ▸ inside), List.mem_map_of_mem target⟩
    · have source := least.1.along handle inside _ along
      exact ⟨List.mem_map_of_mem source, List.mem_map_of_mem (target ▸ inside)⟩
  · exact List.count_eq_one_of_mem (nodup_links_drawing distinct)
      (mem_links_drawing_iff.mpr ⟨handle, inside, arrow, draws, rfl⟩)
  · obtain ⟨handle, inside, arrow, draws, rfl⟩ := mem_links_drawing_iff.mp member
    refine ⟨(handle, arrow), ⟨inside, draws, rfl⟩, ?_⟩
    rintro ⟨other, otherArrow⟩ ⟨-, otherDraws, same⟩
    obtain ⟨rfl, rfl⟩ := otherDraws.unique draws same
    rfl

/-- The drawing of a loop declares the call that closes it, and draws each argument of that call once. A
reference that nothing uses is left out. -/
theorem toDot_complete_factorial :
    let program := Samples.factorial.toOption.getD {}
    ∃ text drawing, program.toDot = .ok text ∧ Drawing.read? text = some drawing ∧
      drawing.declared.Nodup ∧ "n25" ∈ drawing.declared ∧ "n8" ∉ drawing.declared ∧
      drawing.links.count ⟨"n24", "n25", [("arrowhead", "empty"), ("label", "arg1"),
        ("fontsize", "8"), ("fontcolor", "grey")]⟩ = 1 := by
  intro program
  obtain ⟨faultless, reached, unreached⟩ : program.dotWalk.fault = none ∧
      25 ∈ program.dotWalk.order ∧ 8 ∉ program.dotWalk.order := by decide +kernel
  have written : program.toDot = .ok program.dotText := by rw [toDot, faultless]
  obtain ⟨order, drawing, least, read, declared, distinct, -, once, -⟩ := toDot_complete written
  have visited (handle : Handle) : handle ∈ order ↔ handle ∈ program.dotWalk.order :=
    Set.ext_iff.mp (least.unique (isLeast_dotWalk faultless)) handle
  have isDeclared (handle : Handle) : nodeName handle ∈ drawing.declared ↔ handle ∈ order := by
    rw [declared, List.mem_map_of_injective nodeName_injective]
  have call : program.table.get? 25 = some (.call 12 [23, 24]) := by decide +kernel
  have second : ([23, 24] : List Handle)[1]? = some 24 := rfl
  refine ⟨_, drawing, written, read, distinct, ?_, ?_, ?_⟩
  · exact (isDeclared 25).mpr ((visited 25).mpr reached)
  · exact fun found => unreached ((visited 8).mp ((isDeclared 8).mp found))
  · exact once 25 ((visited 25).mpr reached) _ (.callArgument call second)

end Program

end CpsGraph
