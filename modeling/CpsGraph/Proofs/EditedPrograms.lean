import CpsGraph.Proofs.RedirectedCalls
import CpsGraph.Proofs.SimplifiedRuns
import CpsGraph.Proofs.SpecializationOutcomes

/-! # Edited programs

A program is made by edits, one after the other, from the empty one: nodes are interned, labels are
defined and marked, substitutions are applied, and whole programs are specialized, redirected and
simplified. A substitution stays in use while the program changes, together with what was rebuilt
under it. As long as the handles that are passed in have nodes, each edit keeps the program well
formed, and each edit but simplification keeps all nodes in their places.
-/

namespace CpsGraph

/-- A substitution in use, with the nodes that were rebuilt under it. -/
structure Rewriting where
  substitution : Substitution
  rebuilt : List (Handle × Handle) := []

/-- A program that is edited, and the substitutions in use. -/
structure Session where
  program : Program := {}
  rewritings : List Rewriting := []

/-- A change of a program, or a substitution that is taken into use. -/
inductive Edit where
  | intern (node : Node)
  | define (name : Name) (signature : Signature) (body : Handle) (external : Bool)
  | withExternal (name : Name) (external : Bool)
  | beginRewriting (substitution : Substitution)
  | rewrite (index : Nat) (handle : Handle)
  | specialize (entry newName : Name) (signature : Signature) (substitution : Substitution)
  | redirectCalls (old new : Name) (mapping : List Nat)
  | simplify
deriving DecidableEq

/-- The children of an interned node and the replacements of a substitution are nodes. -/
def Edit.InRange (program : Program) : Edit → Prop
  | .intern node => ∀ child ∈ node.children, child < program.size
  | .beginRewriting substitution | .specialize _ _ _ substitution => substitution.InRange program.size
  | _ => True

instance (program : Program) : (edit : Edit) → Decidable (edit.InRange program)
  | .intern node => inferInstanceAs (Decidable (∀ child ∈ node.children, child < program.size))
  | .beginRewriting substitution | .specialize _ _ _ substitution =>
    inferInstanceAs (Decidable (substitution.InRange program.size))
  | .define .. | .withExternal .. | .rewrite .. | .redirectCalls .. | .simplify =>
    inferInstanceAs (Decidable True)

namespace Session

/-- Perform an edit. A simplified program has a table of its own, so no substitution stays in use. -/
def perform (session : Session) : Edit → Except GraphError Session
  | .intern node => return { session with program := (session.program.intern node).2 }
  | .define name signature body external => do
    return { session with program := ← session.program.define name signature body external }
  | .withExternal name external => do
    return { session with program := ← session.program.withExternal name external }
  | .beginRewriting substitution =>
    return { session with rewritings := session.rewritings ++ [{ substitution }] }
  | .rewrite index handle =>
    match session.rewritings[index]? with
    | none => return session
    | some { substitution, rebuilt } => do
      let (_, state) ← (substitution.apply handle).run { program := session.program, rebuilt }
      return { program := state.program
               rewritings := session.rewritings.set index
                 { substitution, rebuilt := state.rebuilt } }
  | .specialize entry newName signature substitution => do
    return { session with
      program := ← session.program.specialize entry newName signature substitution }
  | .redirectCalls old new mapping => do
    return { session with program := ← session.program.redirectCalls old new mapping }
  | .simplify => do return { program := ← session.program.simplify }

/-- The session after an edit. An edit that fails changes nothing. -/
def after (session : Session) (edit : Edit) : Session :=
  (session.perform edit).toOption.getD session

/-- The session after some edits. -/
def afterAll (session : Session) (edits : List Edit) : Session := edits.foldl after session

theorem afterAll_append (session : Session) (first second : List Edit) :
    session.afterAll (first ++ second) = (session.afterAll first).afterAll second :=
  List.foldl_append

/-- Each of some edits is in range when it is performed. -/
def Allows (session : Session) : List Edit → Prop
  | [] => True
  | edit :: edits => edit.InRange session.program ∧ (session.after edit).Allows edits

instance (session : Session) : (edits : List Edit) → Decidable (session.Allows edits)
  | [] => inferInstanceAs (Decidable True)
  | edit :: edits =>
    have : Decidable ((session.after edit).Allows edits) := instDecidableAllows _ edits
    inferInstanceAs (Decidable (_ ∧ _))

/-- The program is well formed, and what was rebuilt under the substitutions in use is right. -/
structure Sound (session : Session) : Prop where
  wellFormed : session.program.WellFormed
  inRange : ∀ rewriting ∈ session.rewritings,
    rewriting.substitution.InRange session.program.size
  rewritings : ∀ rewriting ∈ session.rewritings,
    rewriting.substitution.Sound session.program.table
      { program := session.program, rebuilt := rewriting.rebuilt }

variable {session next : Session} {edit : Edit} {edits : List Edit}

/-- The program of a session may grow. -/
theorem Sound.grow (sound : session.Sound) {program : Program} (wellFormed : program.WellFormed)
    (growth : program.table.Extends session.program.table) :
    Sound { session with program } where
  wellFormed := wellFormed
  inRange rewriting member pair isPair :=
    Nat.lt_of_lt_of_le (sound.inRange rewriting member pair isPair) growth.size_le
  rewritings rewriting member :=
    ((sound.rewritings rewriting member).grow growth wellFormed).rebase

theorem Sound.beginRewriting (sound : session.Sound) {substitution : Substitution}
    (inRange : substitution.InRange session.program.size) :
    Sound { session with rewritings := session.rewritings ++ [{ substitution }] } where
  wellFormed := sound.wellFormed
  inRange := by
    simpa only [List.forall_mem_append, List.forall_mem_singleton] using ⟨sound.inRange, inRange⟩
  rewritings := by
    simp only [List.forall_mem_append, List.forall_mem_singleton]
    exact ⟨sound.rewritings, Table.extends_refl _, sound.wellFormed, nofun⟩

/-- Applying a substitution in use keeps a session sound, and the nodes of its program. -/
theorem Sound.rewrite (sound : session.Sound) {index : Nat} {handle image : Handle}
    {rewriting : Rewriting} (found : session.rewritings[index]? = some rewriting)
    {state : Substitution.State} (ran : (rewriting.substitution.apply handle).run
      { program := session.program, rebuilt := rewriting.rebuilt } = .ok (image, state)) :
    Sound { program := state.program
            rewritings := session.rewritings.set index { rewriting with rebuilt := state.rebuilt } } ∧
      state.program.table.Extends session.program.table := by
  have member := List.mem_of_getElem? found
  have targets (source target : Handle)
      (replaced : rewriting.substitution.lookup source = some target) :
      target < session.program.table.size :=
    sound.inRange rewriting member _ (Results.mem_of_lookup replaced)
  obtain ⟨applied, further⟩ := (sound.rewritings rewriting member).apply_run targets ran
  have grown := sound.grow applied.wellFormed further.growth
  refine ⟨⟨applied.wellFormed, fun other isOther => ?_, fun other isOther => ?_⟩, further.growth⟩
  · rcases List.mem_or_eq_of_mem_set isOther with old | rfl
    · exact grown.inRange other old
    · exact grown.inRange rewriting member
  · rcases List.mem_or_eq_of_mem_set isOther with old | rfl
    · exact grown.rewritings other old
    · exact applied.rebase

/-- What one edit does: the session stays sound, and the program keeps its nodes unless it is
simplified. -/
theorem Sound.perform (sound : session.Sound) (inRange : edit.InRange session.program)
    (success : session.perform edit = .ok next) :
    next.Sound ∧ (edit ≠ .simplify → next.program.table.Extends session.program.table) := by
  -- Most edits replace the program by one that has grown from it.
  have grows {grown : Program} (wellFormed : grown.WellFormed)
      (growth : grown.table.Extends session.program.table) :
      Sound { session with program := grown } ∧
        (edit ≠ .simplify → grown.table.Extends session.program.table) :=
    ⟨sound.grow wellFormed growth, fun _ => growth⟩
  cases edit with
  | intern node =>
    cases success
    have growth := Table.extends_intern session.program.table node
    exact grows (sound.wellFormed.grow growth (sound.wellFormed.table.intern inRange) rfl) growth
  | define name signature body external =>
    obtain ⟨grown, defined, same⟩ := Results.bind_eq_ok_iff.mp success
    cases same
    have wellFormed := sound.wellFormed.define defined
    obtain ⟨-, label, table, registered, rfl⟩ := Program.define_eq_ok defined
    exact grows wellFormed (sound.wellFormed.table.register registered).1
  | withExternal name external =>
    obtain ⟨grown, marked, same⟩ := Results.bind_eq_ok_iff.mp success
    cases same
    obtain ⟨wellFormed, kept⟩ := sound.wellFormed.withExternal marked
    exact grows wellFormed (kept ▸ Table.extends_refl _)
  | beginRewriting substitution =>
    cases success
    exact ⟨sound.beginRewriting inRange, fun _ => Table.extends_refl _⟩
  | rewrite index handle =>
    cases found : session.rewritings[index]? with
    | none =>
      simp only [Session.perform, found] at success
      cases success
      exact ⟨sound, fun _ => Table.extends_refl _⟩
    | some rewriting =>
      simp only [Session.perform, found] at success
      obtain ⟨⟨image, state⟩, ran, same⟩ := Results.bind_eq_ok_iff.mp success
      cases same
      obtain ⟨soundLater, growth⟩ := sound.rewrite found ran
      exact ⟨soundLater, fun _ => growth⟩
  | specialize entry newName signature substitution =>
    obtain ⟨grown, specialized, same⟩ := Results.bind_eq_ok_iff.mp success
    cases same
    rcases Program.specialize_cases sound.wellFormed inRange entry newName signature with
      ⟨scope, _, -, specializedAgain, extended⟩ | ⟨fault, failed, -⟩
    · rw [specialized] at specializedAgain
      cases specializedAgain
      exact grows extended.wellFormed extended.growth
    · rw [specialized] at failed
      cases failed
  | redirectCalls old new mapping =>
    obtain ⟨grown, redirected, same⟩ := Results.bind_eq_ok_iff.mp success
    cases same
    obtain ⟨wellFormed, growth⟩ := sound.wellFormed.redirectCalls redirected
    exact grows wellFormed growth
  | simplify =>
    obtain ⟨last, simplified, same⟩ := Results.bind_eq_ok_iff.mp success
    cases same
    exact ⟨⟨Program.wellFormed_simplify simplified, nofun, nofun⟩, fun other => absurd rfl other⟩

theorem Sound.after (sound : session.Sound) (inRange : edit.InRange session.program) :
    (session.after edit).Sound ∧
      (edit ≠ .simplify → (session.after edit).program.table.Extends session.program.table) := by
  unfold Session.after
  cases performed : session.perform edit with
  | error fault => exact ⟨sound, fun _ => Table.extends_refl _⟩
  | ok next => exact sound.perform inRange performed

/-- What some edits do. -/
theorem Sound.afterAll (sound : session.Sound) (allowed : session.Allows edits) :
    (session.afterAll edits).Sound ∧ (.simplify ∉ edits →
      (session.afterAll edits).program.table.Extends session.program.table) := by
  induction edits generalizing session with
  | nil => exact ⟨sound, fun _ => Table.extends_refl _⟩
  | cons edit edits ih =>
    obtain ⟨inRange, allowed⟩ := allowed
    obtain ⟨soundNext, growthNext⟩ := sound.after inRange
    obtain ⟨soundLast, growthLast⟩ := ih soundNext allowed
    refine ⟨soundLast, fun noSimplify => ?_⟩
    obtain ⟨notHere, notLater⟩ := not_or.mp (mt List.mem_cons.mpr noSimplify)
    exact (growthLast notLater).trans (growthNext (Ne.symm notHere))

/-- A program that edits make from the empty one is well formed, and edits other than simplification
leave its table in front of the new nodes. -/
theorem afterAll_wellFormed (edits : List Edit) (allowed : Session.Allows {} edits) :
    (Session.afterAll {} edits).program.WellFormed ∧
      ∀ later, (Session.afterAll {} edits).Allows later → .simplify ∉ later →
        (Session.afterAll {} edits).program.table.nodes.toList <+:
          ((Session.afterAll {} edits).afterAll later).program.table.nodes.toList := by
  have sound : Session.Sound {} := ⟨by decide, nofun, nofun⟩
  obtain ⟨soundLater, -⟩ := sound.afterAll allowed
  refine ⟨soundLater.wellFormed, fun later allowedLater noSimplify => ?_⟩
  exact Table.extends_iff_isPrefix.mp ((soundLater.afterAll allowedLater).2 noSimplify)

/-- A label that doubles is built, specialized for the argument seven while a substitution is in use, and its
calls are redirected; the substitution is then still right, and the program can be simplified. -/
theorem afterAll_wellFormed_doubling :
    let edits : List Edit :=
      [.intern (.parameter "f" 0), .intern (.parameter "f" 1), .intern (.primitive .add [0, 0]),
        .intern (.call 1 [2]), .define "f" [.int, .fn [.int]] 3 false, .intern (.quote (.int 7)),
        .intern (.parameter "main" 0), .intern (.call 5 [6, 7]), .define "main" [.fn [.int]] 8 true,
        .beginRewriting [(0, 6)], .rewrite 0 3, .intern (.parameter "seven" 0)]
    let later : List Edit :=
      [.specialize "f" "seven" [.fn [.int]] [(0, 6), (1, 13)], .define "f" [] 3 false,
        .rewrite 0 8, .redirectCalls "f" "seven" [1], .withExternal "seven" true]
    let built := Session.afterAll {} edits
    let edited := built.afterAll later
    let simplified := edited.afterAll [.simplify]
    Session.Allows {} (edits ++ later ++ [.simplify]) ∧ .simplify ∉ later ∧
    built.program.names = ["f", "main"] ∧ edited.program.names = ["f", "main", "seven"] ∧
    simplified.program.names = ["main", "seven"] ∧
    built.program.WellFormed ∧ edited.program.WellFormed ∧ simplified.program.WellFormed ∧
    built.program.table.nodes.toList <+: edited.program.table.nodes.toList := by
  intro edits later built edited simplified
  obtain ⟨allowed, allowedEdits, allowedLater, allowedBoth, grows, names⟩ :
      Session.Allows {} (edits ++ later ++ [.simplify]) ∧ Session.Allows {} edits ∧
      built.Allows later ∧ Session.Allows {} (edits ++ later) ∧ .simplify ∉ later ∧
      built.program.names = ["f", "main"] ∧ edited.program.names = ["f", "main", "seven"] ∧
      simplified.program.names = ["main", "seven"] := by decide +kernel
  have atEdits := afterAll_wellFormed edits allowedEdits
  have atBoth := (afterAll_wellFormed (edits ++ later) allowedBoth).1
  have atEnd := (afterAll_wellFormed (edits ++ later ++ [.simplify]) allowed).1
  rw [afterAll_append] at atBoth atEnd
  rw [afterAll_append] at atEnd
  exact ⟨allowed, grows, names.1, names.2.1, names.2.2, atEdits.1, atBoth, atEnd,
    atEdits.2 later allowedLater grows⟩

end Session

end CpsGraph
