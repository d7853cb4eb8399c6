import CpsGraph.Program.Basic
import CpsGraph.Proofs.Results

/-! # Well-formed programs

A table is well formed if every node refers to older nodes only and no node is kept twice. A program
is well formed if moreover its labels have different names and the handles of each label denote the
nodes that stand for it. Every operation on programs keeps this: interning a node whose parts are
already there, and registering a label whose body is.
-/

namespace CpsGraph

namespace Table

/-- Every node refers to older nodes only, and no node is kept twice. -/
structure WellFormed (table : Table) : Prop where
  ordered : ∀ handle < table.size, ∀ node ∈ table.get? handle, ∀ child ∈ node.children,
    child < handle
  distinct : table.nodes.toList.Nodup

instance (table : Table) : Decidable table.WellFormed :=
  decidable_of_iff (_ ∧ _) ⟨fun ⟨ordered, distinct⟩ => ⟨ordered, distinct⟩,
    fun ⟨ordered, distinct⟩ => ⟨ordered, distinct⟩⟩

variable {table : Table} {handle : Handle} {node : Node}

theorem exists_get?_of_lt (inRange : handle < table.size) : ∃ node, table.get? handle = some node :=
  ⟨table.nodes[handle], Array.getElem?_eq_getElem inRange⟩

/-- A part of a node is older than the node. -/
theorem WellFormed.child_lt (wellFormed : table.WellFormed) (present : table.get? handle = some node)
    {child : Handle} (part : child ∈ node.children) : child < handle :=
  wellFormed.ordered handle (lt_size_of_get? present) node present child part

/-- A node has one handle only. -/
theorem WellFormed.get?_inj (wellFormed : table.WellFormed) {first second : Handle}
    (atFirst : table.get? first = some node) (atSecond : table.get? second = some node) :
    first = second := by
  have inRange := lt_size_of_get? atFirst
  rw [← atSecond] at atFirst
  simp only [get?, ← Array.getElem?_toList] at atFirst
  exact (List.getElem?_inj (by simpa [size] using inRange) wellFormed.distinct).mp atFirst

theorem Extends.size_le {before after : Table} (grown : after.Extends before) :
    before.size ≤ after.size := by
  by_contra shrunk
  obtain ⟨node, present⟩ := exists_get?_of_lt (Nat.lt_of_not_le shrunk)
  exact Nat.lt_irrefl _ (lt_size_of_get? (grown present))

/-- A table continues another if and only if it begins with its nodes. -/
theorem extends_iff_isPrefix {before after : Table} :
    after.Extends before ↔ before.nodes.toList <+: after.nodes.toList := by
  rw [List.prefix_iff_getElem?]
  constructor
  · intro grown index inRange
    rw [Array.getElem?_toList]
    exact grown (by simp [get?, Array.getElem?_eq_getElem (Array.length_toList ▸ inRange)])
  · intro kept handle node present
    have inRange := lt_size_of_get? present
    have atHandle := kept handle (by simpa [size] using inRange)
    rw [Array.getElem?_toList] at atHandle
    rw [get?, Array.getElem?_eq_getElem inRange] at present
    rw [get?, atHandle, Array.getElem_toList]
    exact present

/-- A node that is there is found at its handle. -/
theorem WellFormed.find?_of_get? (wellFormed : table.WellFormed)
    (present : table.get? handle = some node) : table.find? node = some handle := by
  cases found : table.find? node with
  | none => exact absurd present (find?_eq_none_iff.mp found handle)
  | some other => rw [wellFormed.get?_inj (get?_of_find? found) present]

/-- Interning a node that is there gives its handle and changes nothing. -/
theorem WellFormed.intern_of_get? (wellFormed : table.WellFormed)
    (present : table.get? handle = some node) : table.intern node = (handle, table) := by
  rw [Table.intern, wellFormed.find?_of_get? present]

theorem intern_eq_push (absent : table.find? node = none) :
    table.intern node = (table.size, ⟨table.nodes.push node⟩) := by
  rw [intern, absent]

theorem get?_push {other : Handle} {nodes : Array Node} :
    (Table.mk (nodes.push node)).get? other =
      if other = nodes.size then some node else (Table.mk nodes).get? other := by
  simp only [get?, Array.getElem?_push]

/-- Interning a node whose parts are there keeps a table well formed. -/
theorem WellFormed.intern (wellFormed : table.WellFormed)
    (parts : ∀ child ∈ node.children, child < table.size) : (table.intern node).2.WellFormed := by
  cases found : table.find? node with
  | some other => rwa [wellFormed.intern_of_get? (get?_of_find? found)]
  | none =>
    rw [intern_eq_push found]
    constructor
    · intro other _ stored present child part
      rw [Option.mem_def, get?_push] at present
      split_ifs at present with last
      · cases present
        exact last ▸ parts child part
      · exact wellFormed.child_lt present part
    · have absent : node ∉ table.nodes.toList := by
        intro stored
        obtain ⟨other, present⟩ := List.mem_iff_getElem?.mp stored
        rw [Array.getElem?_toList] at present
        exact find?_eq_none_iff.mp found other present
      rw [Array.toList_push]
      exact wellFormed.distinct.append (List.nodup_singleton _)
        (List.disjoint_singleton.mpr absent)

theorem extends_internAll (table : Table) (nodes : List Node) :
    (table.internAll nodes).2.Extends table := by
  induction nodes generalizing table with
  | nil => exact extends_refl table
  | cons node nodes ih => exact (ih _).trans (extends_intern table node)

/-- The handles that interning several nodes gives denote these nodes. -/
theorem get?_internAll (table : Table) (nodes : List Node) :
    List.Forall₂ (fun handle node => (table.internAll nodes).2.get? handle = some node)
      (table.internAll nodes).1 nodes := by
  induction nodes generalizing table with
  | nil => exact .nil
  | cons node nodes ih =>
    exact .cons (extends_internAll _ nodes (get?_intern table node)) (ih _)

theorem map_get?_internAll (table : Table) (nodes : List Node) :
    (table.internAll nodes).1.map (table.internAll nodes).2.get? = nodes.map some := by
  rw [← List.forall₂_eq_eq_eq, List.forall₂_map_left_iff, List.forall₂_map_right_iff]
  exact get?_internAll table nodes

/-- Interning nodes whose parts are there keeps a table well formed. -/
theorem WellFormed.internAll (wellFormed : table.WellFormed) {nodes : List Node}
    (parts : ∀ node ∈ nodes, ∀ child ∈ node.children, child < table.size) :
    (table.internAll nodes).2.WellFormed := by
  induction nodes generalizing table with
  | nil => exact wellFormed
  | cons node nodes ih =>
    refine ih (wellFormed.intern (parts node List.mem_cons_self)) fun other member child part => ?_
    exact Nat.lt_of_lt_of_le (parts other (List.mem_cons_of_mem _ member) child part)
      (extends_intern table node).size_le

end Table

namespace Label

/-- What a label shows: its name, its signature and its mark. -/
def interface (label : Label) : Name × Signature × Bool :=
  (label.name, label.signature, label.external)

/-- The handles of a label denote its body, its continuation, its closure and its parameters. -/
structure Registered (table : Table) (label : Label) : Prop where
  body : ∃ node ∈ table.get? label.body, node.isBody
  node : table.get? label.node = some (.continuation label.name label.signature label.body)
  abstraction : table.get? label.abstraction = some (.abstraction label.name)
  parameters : label.parameters.map table.get? =
    (List.range label.arity).map fun index => some (.parameter label.name index)

instance (table : Table) (label : Label) : Decidable (label.Registered table) :=
  decidable_of_iff (_ ∧ _ ∧ _ ∧ _)
    ⟨fun ⟨body, node, abstraction, parameters⟩ => ⟨body, node, abstraction, parameters⟩,
      fun ⟨body, node, abstraction, parameters⟩ => ⟨body, node, abstraction, parameters⟩⟩

namespace Registered

variable {table : Table} {label : Label}

/-- The closure of a label has one handle only. -/
theorem eq_abstraction_iff (registered : label.Registered table) (wellFormed : table.WellFormed)
    {handle : Handle} :
    handle = label.abstraction ↔ table.get? handle = some (.abstraction label.name) := by
  constructor
  · rintro rfl
    exact registered.abstraction
  · exact fun present => wellFormed.get?_inj present registered.abstraction

theorem length_parameters (registered : label.Registered table) :
    label.parameters.length = label.arity := by
  simpa using congrArg List.length registered.parameters

/-- The parameter handle at an index denotes the parameter with that index. -/
theorem get?_parameter (registered : label.Registered table) {index : Nat} {handle : Handle}
    (atIndex : label.parameters[index]? = some handle) :
    table.get? handle = some (.parameter label.name index) := by
  have inRange : index < label.arity := by
    rw [← registered.length_parameters]
    exact (List.getElem?_eq_some_iff.mp atIndex).1
  have same := congrArg (·[index]?) registered.parameters
  simpa [atIndex, inRange] using same

/-- A handle that denotes a parameter of a label is the one that the label has for it. -/
theorem parameters_getElem? (registered : label.Registered table) (wellFormed : table.WellFormed)
    {index : Nat} {handle : Handle} (inRange : index < label.arity)
    (present : table.get? handle = some (.parameter label.name index)) :
    label.parameters[index]? = some handle := by
  rw [← registered.length_parameters] at inRange
  have atIndex := List.getElem?_eq_getElem inRange
  rw [atIndex, wellFormed.get?_inj (registered.get?_parameter atIndex) present]

/-- A label is known by its interface and its body: all of its handles denote nodes made of these. -/
theorem eq_of_interface {image : Label} (registered : label.Registered table)
    (registeredImage : image.Registered table) (wellFormed : table.WellFormed)
    (sameInterface : image.interface = label.interface) (sameBody : image.body = label.body) :
    image = label := by
  simp only [interface, Prod.mk.injEq] at sameInterface
  obtain ⟨sameName, sameSignature, sameExternal⟩ := sameInterface
  have sameArity : image.arity = label.arity := by rw [arity, arity, sameSignature]
  have sameNode : image.node = label.node := by
    apply wellFormed.get?_inj registeredImage.node
    rw [registered.node, sameName, sameSignature, sameBody]
  have sameAbstraction : image.abstraction = label.abstraction := by
    apply wellFormed.get?_inj registeredImage.abstraction
    rw [registered.abstraction, sameName]
  have sameParameters : image.parameters = label.parameters := by
    have sameLength : image.parameters.length = label.parameters.length := by
      rw [registeredImage.length_parameters, registered.length_parameters, sameArity]
    apply List.ext_getElem sameLength
    intro index inImage inLabel
    have present := registeredImage.get?_parameter (List.getElem?_eq_getElem inImage)
    rw [sameName] at present
    exact wellFormed.get?_inj present (registered.get?_parameter (List.getElem?_eq_getElem inLabel))
  cases image
  cases label
  simp_all

theorem mono {grown : Table} (registered : label.Registered table) (growth : grown.Extends table) :
    label.Registered grown where
  body := by
    obtain ⟨node, present, isBody⟩ := registered.body
    exact ⟨node, growth present, isBody⟩
  node := growth registered.node
  abstraction := growth registered.abstraction
  parameters := by
    rw [← registered.parameters]
    apply List.map_congr_left
    intro handle member
    obtain ⟨index, atIndex⟩ := List.mem_iff_getElem?.mp member
    have present := registered.get?_parameter atIndex
    rw [present, growth present]

end Registered

end Label

namespace Table

variable {table grown : Table} {name : Name} {signature : Signature} {body : Handle}
  {external : Bool} {label : Label}

/-- A label can be registered exactly if its body is there and is a body. -/
theorem register_isOk_iff : (table.register name signature body external).isOk ↔
    ∃ node, table.get? body = some node ∧ node.isBody := by
  unfold register
  cases present : table.get? body with
  | none => simp [get, present, bind, Except.bind, Except.isOk, Except.toBool]
  | some node =>
    cases isBody : node.isBody <;>
      simp [get, present, isBody, bind, Except.bind, Except.isOk, Except.toBool, pure, Except.pure,
        throw, throwThe, MonadExceptOf.throw]

/-- What registering a label adds: the label has the given parts, and its handles denote them. -/
theorem WellFormed.register (wellFormed : table.WellFormed)
    (success : table.register name signature body external = .ok (label, grown)) :
    grown.Extends table ∧ grown.WellFormed ∧ label.Registered grown ∧ label.name = name ∧
      label.signature = signature ∧ label.body = body ∧ label.external = external := by
  obtain ⟨bodyNode, present, isBody⟩ :=
    register_isOk_iff.mp (show (table.register name signature body external).isOk by
      rw [success]; rfl)
  have inRange := lt_size_of_get? present
  have closed : (table.intern (.continuation name signature body)).2.WellFormed :=
    wellFormed.intern (by simpa [Node.children] using inRange)
  have named : ((table.intern (.continuation name signature body)).2.intern
      (.abstraction name)).2.WellFormed := closed.intern (by simp [Node.children])
  simp only [Table.register, get, present, Option.elim, bind, Except.bind, isBody, if_true, pure,
    Except.pure, Except.ok.injEq, Prod.mk.injEq] at success
  obtain ⟨rfl, rfl⟩ := success
  have last := extends_internAll
    ((table.intern (.continuation name signature body)).2.intern (.abstraction name)).2
    ((List.range signature.arity).map (.parameter name))
  have grown := last.trans ((extends_intern _ _).trans (extends_intern _ _))
  refine ⟨grown, named.internAll (by simp [Node.children]), ⟨?_, ?_, ?_, ?_⟩, rfl, rfl, rfl, rfl⟩
  · exact ⟨bodyNode, grown present, isBody⟩
  · exact last (extends_intern _ _ (get?_intern table _))
  · exact last (get?_intern _ _)
  · have denoted := map_get?_internAll
      ((table.intern (.continuation name signature body)).2.intern (.abstraction name)).2
      ((List.range signature.arity).map (.parameter name))
    rwa [List.map_map] at denoted

end Table

namespace Program

/-- The table is well formed, no name is used twice, and every label is registered. -/
structure WellFormed (program : Program) : Prop where
  table : program.table.WellFormed
  names : program.names.Nodup
  labels : ∀ label ∈ program.labels, label.Registered program.table

instance (program : Program) : Decidable program.WellFormed :=
  decidable_of_iff (_ ∧ _ ∧ _) ⟨fun ⟨table, names, labels⟩ => ⟨table, names, labels⟩,
    fun ⟨table, names, labels⟩ => ⟨table, names, labels⟩⟩

variable {program grown : Program} {name : Name} {label : Label}

theorem mem_of_find? (found : program.find? name = some label) : label ∈ program.labels :=
  List.mem_of_find?_eq_some found

theorem name_of_find? (found : program.find? name = some label) : label.name = name := by
  simpa using List.find?_some found

theorem mem_names_iff : name ∈ program.names ↔ ∃ label, program.find? name = some label := by
  rw [← Option.isSome_iff_exists, find?, List.find?_isSome, names, List.mem_map]
  simp

theorem contains_iff : program.contains name = true ↔ name ∈ program.names := by
  rw [contains, Option.isSome_iff_exists, mem_names_iff]

theorem resolve_eq_ok_iff : program.resolve name = .ok label ↔ program.find? name = some label := by
  unfold resolve
  cases program.find? name <;> simp

/-- A label of a program without repeated names is found by its name. -/
theorem find?_of_mem (distinct : program.names.Nodup) (member : label ∈ program.labels) :
    program.find? label.name = some label := by
  obtain ⟨found, present⟩ := mem_names_iff.mp (List.mem_map_of_mem member)
  have same := List.inj_on_of_nodup_map distinct (mem_of_find? present) member
    (name_of_find? present)
  rw [present, same]

theorem WellFormed.registered (wellFormed : program.WellFormed)
    (found : program.find? name = some label) : label.Registered program.table :=
  wellFormed.labels label (mem_of_find? found)

theorem parameter_eq_ok_iff {index : Nat} {handle : Handle} :
    program.parameter name index = .ok handle ↔
      ∃ label, program.find? name = some label ∧ label.parameters[index]? = some handle := by
  unfold parameter
  simp only [Results.bind_eq_ok_iff, resolve_eq_ok_iff]
  refine exists_congr fun label => and_congr_right fun _ => ?_
  cases label.parameters[index]? with
  | none => exact ⟨nofun, nofun⟩
  | some found => simp [pure, Except.pure]

/-- A parameter of a label can be found if and only if its index is in range. -/
theorem WellFormed.exists_parameter_iff (wellFormed : program.WellFormed) {index : Nat} :
    (∃ handle, program.parameter name index = .ok handle) ↔
      ∃ label, program.find? name = some label ∧ index < label.arity := by
  simp only [parameter_eq_ok_iff]
  constructor
  · rintro ⟨handle, label, found, atIndex⟩
    refine ⟨label, found, ?_⟩
    rw [← (wellFormed.registered found).length_parameters]
    exact (List.getElem?_eq_some_iff.mp atIndex).1
  · rintro ⟨label, found, inRange⟩
    rw [← (wellFormed.registered found).length_parameters] at inRange
    exact ⟨_, label, found, List.getElem?_eq_getElem inRange⟩

/-- Growing the table keeps a program well formed as long as the table stays well formed. -/
theorem WellFormed.grow (wellFormed : program.WellFormed)
    (growth : grown.table.Extends program.table) (closed : grown.table.WellFormed)
    (same : grown.labels = program.labels) : grown.WellFormed where
  table := closed
  names := by
    rw [Program.names, same]
    exact wellFormed.names
  labels label member := (wellFormed.labels label (same ▸ member)).mono growth

/-- What defining a label does: the name is new, and the registered label comes last. -/
theorem define_eq_ok {signature : Signature} {body : Handle} {external : Bool}
    (success : program.define name signature body external = .ok grown) :
    name ∉ program.names ∧ ∃ label table,
      program.table.register name signature body external = .ok (label, table) ∧
        grown = ⟨table, program.labels ++ [label]⟩ := by
  unfold define at success
  cases known : program.contains name with
  | true => simp [known, bind, Except.bind, throw, throwThe, MonadExceptOf.throw] at success
  | false =>
    have fresh : name ∉ program.names := by
      rw [← contains_iff, known]
      exact Bool.false_ne_true
    cases registered : program.table.register name signature body external with
    | error fault =>
      simp [known, registered, bind, Except.bind] at success
    | ok result =>
      obtain ⟨label, table⟩ := result
      simp only [known, registered, bind, Except.bind, pure, Except.pure, Bool.false_eq_true,
        if_false, Except.ok.injEq] at success
      exact ⟨fresh, label, table, rfl, success.symm⟩

/-- Defining a label keeps a program well formed. -/
theorem WellFormed.define {signature : Signature} {body : Handle} {external : Bool}
    (wellFormed : program.WellFormed)
    (success : program.define name signature body external = .ok grown) : grown.WellFormed := by
  obtain ⟨fresh, label, table, registered, rfl⟩ := define_eq_ok success
  obtain ⟨growth, closed, denoted, named, -⟩ := wellFormed.table.register registered
  refine ⟨closed, ?_, ?_⟩
  · simp only [Program.names, List.map_append, List.map_cons, List.map_nil, named]
    exact wellFormed.names.append (List.nodup_singleton _) (List.disjoint_singleton.mpr fresh)
  · intro other member
    rcases List.mem_append.mp member with old | new
    · exact (wellFormed.labels other old).mono growth
    · rwa [List.mem_singleton.mp new]

/-- Defining a label with a body that is there fails only if the name is in use or the body is none. -/
theorem define_eq_error {signature : Signature} {body : Handle} {external : Bool} {node : Node}
    (present : program.table.get? body = some node) {fault : GraphError}
    (failure : program.define name signature body external = .error fault) :
    name ∈ program.names ∧ fault = .duplicateLabel name ∨ fault = .notABody name node.kind := by
  unfold define Table.register at failure
  rw [Table.get_eq_ok_iff.mpr present] at failure
  cases known : program.contains name with
  | true =>
    rw [known] at failure
    cases failure
    exact .inl ⟨contains_iff.mp known, rfl⟩
  | false =>
    cases isBody : node.isBody with
    | true => simp [known, isBody, bind, Except.bind, pure, Except.pure] at failure
    | false =>
      simp only [known, isBody, bind, Except.bind, Bool.false_eq_true, if_false, pure,
        Except.pure] at failure
      cases failure
      exact .inr rfl

/-- A label with a new name and a body that is there can be defined. -/
theorem WellFormed.exists_define (wellFormed : program.WellFormed) (fresh : name ∉ program.names)
    {body : Handle} {node : Node} (present : program.table.get? body = some node)
    (isBody : node.isBody = true) (signature : Signature) (external : Bool) :
    ∃ grown label, program.define name signature body external = .ok grown ∧ grown.WellFormed ∧
      grown.table.Extends program.table ∧ grown.labels = program.labels ++ [label] ∧
      label.name = name ∧ label.signature = signature ∧ label.body = body := by
  have registers : (program.table.register name signature body external).isOk :=
    Table.register_isOk_iff.mpr ⟨node, present, isBody⟩
  cases registered : program.table.register name signature body external with
  | error fault =>
    rw [registered] at registers
    cases registers
  | ok result =>
    obtain ⟨label, table⟩ := result
    have success : program.define name signature body external =
        .ok ⟨table, program.labels ++ [label]⟩ := by
      have unknown : program.contains name = false := by
        rw [← Bool.not_eq_true, contains_iff]
        exact fresh
      simp [Program.define, unknown, registered, bind, Except.bind, pure, Except.pure]
    obtain ⟨growth, -, -, named, signed, bodied, -⟩ := wellFormed.table.register registered
    exact ⟨_, label, success, wellFormed.define success, growth, rfl, named, signed, bodied⟩

/-- What giving a label another body does: the label is registered again, in its place. -/
theorem redefine_eq_ok {body : Handle} (success : program.redefine name body = .ok grown) :
    ∃ old label table, program.find? name = some old ∧
      program.table.register old.name old.signature body old.external = .ok (label, table) ∧
      grown = ⟨table, program.labels.map fun other => if other.name = name then label else other⟩ := by
  obtain ⟨old, resolved, success⟩ := Results.bind_eq_ok_iff.mp success
  obtain ⟨⟨label, table⟩, registered, success⟩ := Results.bind_eq_ok_iff.mp success
  cases success
  exact ⟨old, label, table, resolve_eq_ok_iff.mp resolved, registered, rfl⟩

/-- Changing labels without changing their names keeps the names. -/
theorem names_map {change : Label → Label} (kept : ∀ label, (change label).name = label.name)
    (table : Table) : names ⟨table, program.labels.map change⟩ = program.names := by
  rw [names, names, List.map_map]
  exact List.map_congr_left fun other _ => kept other

/-- Giving a label another body keeps a program well formed. -/
theorem WellFormed.redefine {body : Handle} (wellFormed : program.WellFormed)
    (success : program.redefine name body = .ok grown) :
    grown.WellFormed ∧ grown.table.Extends program.table := by
  obtain ⟨old, label, table, found, registered, rfl⟩ := redefine_eq_ok success
  obtain ⟨growth, closed, denoted, named, -⟩ := wellFormed.table.register registered
  rw [name_of_find? found] at named
  refine ⟨⟨closed, ?_, ?_⟩, growth⟩
  · rw [names_map fun other => by split_ifs with here <;> simp [named, here]]
    exact wellFormed.names
  · intro other member
    obtain ⟨before, isLabel, rfl⟩ := List.mem_map.mp member
    split_ifs
    · exact denoted
    · exact (wellFormed.labels before isLabel).mono growth

/-- Giving a label another body keeps the interfaces of all labels and their order. -/
theorem WellFormed.interfaces_redefine {body : Handle} (wellFormed : program.WellFormed)
    (success : program.redefine name body = .ok grown) :
    grown.labels.map Label.interface = program.labels.map Label.interface := by
  obtain ⟨old, label, table, found, registered, rfl⟩ := redefine_eq_ok success
  obtain ⟨-, -, -, named, signed, -, marked⟩ := wellFormed.table.register registered
  rw [List.map_map]
  apply List.map_congr_left
  intro other member
  simp only [Function.comp]
  split_ifs with here
  · have foundOther := find?_of_mem wellFormed.names member
    rw [here, found] at foundOther
    cases foundOther
    rw [Label.interface, Label.interface, named, signed, marked]
  · rfl

/-- A label can be given any body that is there. -/
theorem WellFormed.exists_redefine (wellFormed : program.WellFormed) {old : Label}
    (found : program.find? name = some old) {body : Handle} {node : Node}
    (present : program.table.get? body = some node) (isBody : node.isBody = true) :
    ∃ grown label, program.redefine name body = .ok grown ∧ grown.WellFormed ∧
      grown.table.Extends program.table ∧
      (∀ other, grown.find? other = if other = name then some label else program.find? other) ∧
      label.signature = old.signature ∧ label.body = body := by
  have registers : (program.table.register old.name old.signature body old.external).isOk :=
    Table.register_isOk_iff.mpr ⟨node, present, isBody⟩
  cases registered : program.table.register old.name old.signature body old.external with
  | error fault =>
    rw [registered] at registers
    cases registers
  | ok result =>
    obtain ⟨label, table⟩ := result
    have success : program.redefine name body = .ok
        ⟨table, program.labels.map fun other => if other.name = name then label else other⟩ := by
      simp only [Program.redefine, resolve_eq_ok_iff.mpr found, registered, bind, Except.bind, pure,
        Except.pure]
    obtain ⟨closed, growth⟩ := wellFormed.redefine success
    obtain ⟨-, -, -, named, signed, bodied, -⟩ := wellFormed.table.register registered
    rw [name_of_find? found] at named
    refine ⟨_, label, success, closed, growth, fun other => ?_, signed, bodied⟩
    have kept : (fun label => label.name == other) ∘ (fun other =>
        if other.name = name then label else other) = fun label => label.name == other := by
      funext before
      simp only [Function.comp]
      split_ifs with here
      · rw [named, here]
      · rfl
    rw [find?, List.find?_map, kept]
    change (program.find? other).map _ = _
    split_ifs with here
    · rw [here, found, Option.map_some, if_pos (name_of_find? found)]
    · cases foundOther : program.find? other with
      | none => rfl
      | some before =>
        rw [Option.map_some, if_neg]
        rw [name_of_find? foundOther]
        exact here

/-- Marking a label keeps a program well formed, and its table as it is. -/
theorem WellFormed.withExternal {external : Bool} (wellFormed : program.WellFormed)
    (success : program.withExternal name external = .ok grown) :
    grown.WellFormed ∧ grown.table = program.table := by
  obtain ⟨_, -, success⟩ := Results.bind_eq_ok_iff.mp success
  cases success
  refine ⟨⟨wellFormed.table, ?_, ?_⟩, rfl⟩
  · rw [names_map fun other => by split_ifs <;> rfl]
    exact wellFormed.names
  · intro other member
    obtain ⟨before, isLabel, rfl⟩ := List.mem_map.mp member
    obtain ⟨body, node, abstraction, parameters⟩ := wellFormed.labels before isLabel
    split_ifs
    · exact ⟨body, node, abstraction, parameters⟩
    · exact ⟨body, node, abstraction, parameters⟩

end Program

end CpsGraph
