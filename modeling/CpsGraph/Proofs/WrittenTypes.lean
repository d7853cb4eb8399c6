import CpsGraph.Error
import CpsGraph.Proofs.Results

/-! # Written types

A text is a writing of a token sequence if it spells the tokens one after another, with whatever
blanks before, between and after them. A type can be read from the writings of its own token sequence
and from no other text, so reading inverts printing, and an error carries the whole text.
-/

namespace CpsGraph.Ty

/-- A text spells tokens, with blanks before, between and after them. -/
inductive Written : List Token → List Char → Prop
  | nil {gap : List Char} (blank : ∀ char ∈ gap, Text.isBlank char) : Written [] gap
  | cons {gap chars : List Char} {token : Token} {tokens : List Token}
      (blank : ∀ char ∈ gap, Text.isBlank char) (rest : Written tokens chars) :
      Written (token :: tokens) (gap ++ token.text ++ chars)

variable {char : Char} {chars gap : List Char} {tokens : List Token}

/-- One more blank in front makes no difference. -/
theorem Written.blank (written : Written tokens chars) (blank : Text.isBlank char) :
    Written tokens (char :: chars) := by
  cases written with
  | nil blanks => exact .nil (List.forall_mem_cons.mpr ⟨blank, blanks⟩)
  | cons blanks rest => exact .cons (List.forall_mem_cons.mpr ⟨blank, blanks⟩) rest

theorem Written.append_text (written : Written tokens chars) (token : Token) :
    Written (token :: tokens) (token.text ++ chars) := by
  have noGap : ∀ char ∈ ([] : List Char), Text.isBlank char := by simp
  exact .cons noGap written

/-- What is printed for tokens is a writing of them. -/
theorem written_flatMap_spell (tokens : List Token) : Written tokens (tokens.flatMap Token.spell) := by
  induction tokens with
  | nil => exact .nil (by simp)
  | cons token tokens ih =>
    rw [List.flatMap_cons]
    cases token with
    | comma => exact (ih.blank (by decide)).append_text .comma
    | int => exact ih.append_text .int
    | bool => exact ih.append_text .bool
    | fn => exact ih.append_text .fn
    | openParen => exact ih.append_text .openParen
    | closeParen => exact ih.append_text .closeParen

/-! ## Tokens at the front of a text -/

/-- No token is the beginning of another one. -/
theorem Token.isPrefixOf_text (token other : Token) (rest : List Char) :
    other.text.isPrefixOf (token.text ++ rest) = decide (other = token) := by
  cases token <;> cases other <;> rfl

/-- Of the blanks before a token none is left. -/
theorem dropWhile_gap (blank : ∀ char ∈ gap, Text.isBlank char) (token : Token) (rest : List Char) :
    (gap ++ token.text ++ rest).dropWhile Text.isBlank = token.text ++ rest := by
  rw [List.append_assoc, List.dropWhile_append_of_pos blank]
  cases token <;> exact List.dropWhile_cons_of_neg (by decide)

/-- The token that is written first can be taken, and no other one. -/
theorem Written.exists_eat {token : Token} (written : Written (token :: tokens) chars) :
    ∃ rest, Written tokens rest ∧ token.eat chars = some rest ∧
      ∀ other : Token, other ≠ token → other.eat chars = none := by
  cases written with
  | @cons gap rest _ _ blank written =>
    refine ⟨rest, written, ?_, fun other differs => ?_⟩
    · rw [Token.eat, dropWhile_gap blank, Token.isPrefixOf_text, List.drop_left]
      exact if_pos (decide_eq_true rfl)
    · rw [Token.eat, dropWhile_gap blank, Token.isPrefixOf_text]
      exact if_neg (by simpa using differs)

/-- What a token is taken from is written with this token first. -/
theorem Written.of_eat {token : Token} {rest : List Char} (taken : token.eat chars = some rest)
    (written : Written tokens rest) : Written (token :: tokens) chars := by
  obtain ⟨begins, dropped⟩ := Option.ite_none_right_eq_some.mp taken
  obtain ⟨after, split⟩ := List.isPrefixOf_iff_prefix.mp begins
  rw [← split, List.drop_left] at dropped
  cases dropped
  have gap : ∀ char ∈ chars.takeWhile Text.isBlank, Text.isBlank char :=
    fun char inGap => List.mem_takeWhile_imp inGap
  rw [← List.takeWhile_append_dropWhile (p := Text.isBlank) (l := chars), ← split, ← List.append_assoc]
  exact .cons gap written

/-! ## Reading -/

theorem paramTokens_cons (param : Ty) {params : List Ty} (more : params ≠ []) :
    paramTokens (param :: params) = param.tokens ++ .comma :: paramTokens params := by
  cases params with
  | nil => exact absurd rfl more
  | cons next params => rw [paramTokens]

/-- What is read from the front of a text is written there, before whatever the rest is a writing of. -/
theorem written_of_read (fuel : Nat) :
    (∀ {input ty rest}, readType fuel input = some (ty, rest) → ∀ {tokens}, Written tokens rest →
      Written (ty.tokens ++ tokens) input) ∧
    (∀ {input params rest}, readSignature fuel input = some (params, rest) → ∀ {tokens},
      Written tokens rest →
        Written (.openParen :: (paramTokens params ++ .closeParen :: tokens)) input) ∧
    ∀ {input params rest}, readParams fuel input = some (params, rest) → params ≠ [] ∧ ∀ {tokens},
      Written tokens rest → Written (paramTokens params ++ .closeParen :: tokens) input := by
  induction fuel with
  | zero => exact ⟨nofun, nofun, nofun⟩
  | succ fuel ih =>
    obtain ⟨types, signatures, lists⟩ := ih
    refine ⟨fun {input ty rest} success tokens written => ?_,
      fun {input params rest} success tokens written => ?_, fun {input params rest} success => ?_⟩
    · rw [readType] at success
      split at success
      next taken =>
        cases success
        exact written.of_eat taken
      next =>
        split at success
        next taken =>
          cases success
          exact written.of_eat taken
        next =>
          obtain ⟨after, taken, success⟩ := Option.bind_eq_some_iff.mp success
          obtain ⟨⟨params, _⟩, read, same⟩ := Option.bind_eq_some_iff.mp success
          cases same
          have whole := (signatures read written).of_eat taken
          simpa [Ty.tokens] using whole
    · rw [readSignature] at success
      obtain ⟨after, opened, success⟩ := Option.bind_eq_some_iff.mp success
      split at success
      next closed =>
        cases success
        exact (written.of_eat closed).of_eat opened
      next => exact ((lists success).2 written).of_eat opened
    · rw [readParams] at success
      obtain ⟨⟨param, after⟩, read, success⟩ := Option.bind_eq_some_iff.mp success
      dsimp only at success
      split at success
      next taken =>
        obtain ⟨⟨params, _⟩, readRest, same⟩ := Option.bind_eq_some_iff.mp success
        cases same
        obtain ⟨more, writtenRest⟩ := lists readRest
        refine ⟨List.cons_ne_nil _ _, fun written => ?_⟩
        rw [paramTokens_cons param more, List.append_assoc]
        exact types read ((writtenRest written).of_eat taken)
      next =>
        obtain ⟨_, closed, same⟩ := Option.bind_eq_some_iff.mp success
        cases same
        exact ⟨List.cons_ne_nil _ _, fun written => types read (written.of_eat closed)⟩

/-- A type does not begin with a parenthesis that closes. -/
theorem exists_tokens_eq_cons (ty : Ty) :
    ∃ token tokens, ty.tokens = token :: tokens ∧ token ≠ .closeParen := by
  cases ty with
  | int => exact ⟨.int, [], by rw [tokens], by decide⟩
  | bool => exact ⟨.bool, [], by rw [tokens], by decide⟩
  | fn params => exact ⟨.fn, _, by rw [tokens], by decide⟩

theorem exists_paramTokens_eq_cons {params : List Ty} (more : params ≠ []) :
    ∃ token tokens, paramTokens params = token :: tokens ∧ token ≠ .closeParen := by
  obtain ⟨param, params, rfl⟩ := List.exists_cons_of_ne_nil more
  obtain ⟨token, tokens, begins, notClosing⟩ := exists_tokens_eq_cons param
  cases params with
  | nil => exact ⟨token, tokens, by rw [paramTokens, begins], notClosing⟩
  | cons => exact ⟨token, _, by rw [paramTokens, begins, List.cons_append], notClosing⟩

/-- What is written at the front of a text is read from there, with as many nested calls as there are
tokens. -/
theorem read_of_written (fuel : Nat) :
    (∀ (ty : Ty) {tokens input}, ty.tokens.length ≤ fuel → Written (ty.tokens ++ tokens) input →
      ∃ rest, readType fuel input = some (ty, rest) ∧ Written tokens rest) ∧
    (∀ (params : List Ty) {tokens input}, (paramTokens params).length + 2 ≤ fuel →
      Written (.openParen :: (paramTokens params ++ .closeParen :: tokens)) input →
        ∃ rest, readSignature fuel input = some (params, rest) ∧ Written tokens rest) ∧
    ∀ (params : List Ty) {tokens input}, params ≠ [] → (paramTokens params).length + 1 ≤ fuel →
      Written (paramTokens params ++ .closeParen :: tokens) input →
        ∃ rest, readParams fuel input = some (params, rest) ∧ Written tokens rest := by
  induction fuel with
  | zero =>
    refine ⟨fun ty _ _ enough => ?_, fun _ _ _ enough => ?_, fun _ _ _ _ enough => ?_⟩
    · obtain ⟨_, _, same, -⟩ := exists_tokens_eq_cons ty
      simp [same] at enough
    · omega
    · omega
  | succ fuel ih =>
    obtain ⟨types, signatures, lists⟩ := ih
    refine ⟨fun ty tokens input enough written => ?_, fun params tokens input enough written => ?_,
      fun params tokens input more enough written => ?_⟩
    · cases ty with
      | int =>
        obtain ⟨rest, written, taken, -⟩ := written.exists_eat
        exact ⟨rest, by rw [readType, taken], written⟩
      | bool =>
        obtain ⟨rest, written, taken, others⟩ := written.exists_eat
        exact ⟨rest, by rw [readType, others .int (by decide), taken], written⟩
      | fn params =>
        rw [Ty.tokens, List.cons_append, List.cons_append, List.append_assoc] at written
        obtain ⟨after, written, taken, others⟩ := written.exists_eat
        have enough : (paramTokens params).length + 2 ≤ fuel := by
          simp only [Ty.tokens, List.length_cons, List.length_append] at enough
          omega
        obtain ⟨rest, read, written⟩ := signatures params enough written
        refine ⟨rest, ?_, written⟩
        simp [readType, others .int (by decide), others .bool (by decide), taken, read]
    · obtain ⟨after, written, opened, -⟩ := written.exists_eat
      by_cases empty : params = []
      · subst empty
        obtain ⟨rest, written, closed, -⟩ := written.exists_eat
        exact ⟨rest, by simp [readSignature, opened, closed], written⟩
      · have notClosed : Token.closeParen.eat after = none := by
          obtain ⟨token, _, begins, notClosing⟩ := exists_paramTokens_eq_cons empty
          rw [begins] at written
          obtain ⟨_, -, -, others⟩ := written.exists_eat
          exact others .closeParen notClosing.symm
        obtain ⟨rest, read, written⟩ := lists params empty (by omega) written
        exact ⟨rest, by simp [readSignature, opened, notClosed, read], written⟩
    · obtain ⟨param, params, rfl⟩ := List.exists_cons_of_ne_nil more
      by_cases last : params = []
      · subst last
        obtain ⟨after, read, written⟩ := types param (Nat.le_of_succ_le_succ enough) written
        obtain ⟨rest, written, closed, others⟩ := written.exists_eat
        exact ⟨rest, by simp [readParams, read, others .comma (by decide), closed], written⟩
      · rw [paramTokens_cons param last, List.length_append, List.length_cons] at enough
        rw [paramTokens_cons param last, List.append_assoc] at written
        obtain ⟨after, read, written⟩ := types param (by omega) written
        obtain ⟨next, written, taken, -⟩ := written.exists_eat
        obtain ⟨rest, readRest, written⟩ := lists params last (by omega) written
        exact ⟨rest, by simp [readParams, read, taken, readRest], written⟩

theorem Written.length_le (written : Written tokens chars) : tokens.length ≤ chars.length := by
  induction written with
  | nil => exact Nat.zero_le _
  | @cons _ _ token _ _ _ ih =>
    have positive : 0 < token.text.length := by cases token <;> decide
    simp only [List.length_cons, List.length_append]
    omega

/-- A type can be read from the writings of its tokens. -/
theorem parse?_eq_some_iff {text : String} {ty : Ty} :
    parse? text = some ty ↔ Written ty.tokens text.toList := by
  constructor
  · intro success
    rw [parse?] at success
    obtain ⟨⟨_, rest⟩, read, success⟩ := Option.bind_eq_some_iff.mp success
    obtain ⟨atEnd, same⟩ := Option.ite_none_right_eq_some.mp success
    cases same
    have blank := List.dropWhile_eq_nil_iff.mp (List.isEmpty_iff.mp atEnd)
    have written := (written_of_read _).1 read (.nil blank)
    rwa [List.append_nil] at written
  · intro written
    have enough := written.length_le
    rw [← List.append_nil ty.tokens] at written
    obtain ⟨rest, read, written⟩ := (read_of_written _).1 ty enough written
    cases written with
    | nil blank =>
      rw [parse?, read]
      exact if_pos (List.isEmpty_iff.mpr (List.dropWhile_eq_nil_iff.mpr blank))

/-- A text is either the writing of one type, which is read from it, or faulty, and the error carries
the whole text. Printed types are read back, and a signature can be read where a function type can. -/
theorem parse_exact (text : String) (ty : Ty) (signature : Signature) :
    (Ty.parse text = .ok ty ↔ Written ty.tokens text.toList) ∧
    (∀ error, Ty.parse text = .error error ↔
      error = .invalidType text ∧ ∀ other : Ty, ¬Written other.tokens text.toList) ∧
    Ty.parse ty.render = .ok ty ∧
    (Signature.parse text = .ok signature ↔ Ty.parse text = .ok (.fn signature)) ∧
    (∀ error, Signature.parse text = .error error ↔
      error = .invalidType text ∧ ∀ params, Ty.parse text ≠ .ok (.fn params)) := by
  have read {text : String} {ty : Ty} : Ty.parse text = .ok ty ↔ parse? text = some ty :=
    Results.elim_eq_ok_iff
  have readSignature {signature : Signature} :
      Signature.parse? text = some signature ↔ Ty.parse text = .ok (.fn signature) := by
    rw [read, Signature.parse?, Option.bind_eq_some_iff]
    constructor
    · rintro ⟨ty, found, isFunction⟩
      cases ty <;> cases isFunction
      exact found
    · exact fun found => ⟨_, found, rfl⟩
  refine ⟨read.trans parse?_eq_some_iff, fun error => ?_, ?_, Results.elim_eq_ok_iff.trans readSignature,
    fun error => ?_⟩
  · rw [Ty.parse, Results.elim_eq_error_iff]
    simp only [Option.eq_none_iff_forall_ne_some, ne_eq, parse?_eq_some_iff]
  · rw [read, parse?_eq_some_iff, render, String.toList_ofList]
    exact written_flatMap_spell ty.tokens
  · rw [Signature.parse, Results.elim_eq_error_iff]
    simp only [Option.eq_none_iff_forall_ne_some, ne_eq, readSignature]

end CpsGraph.Ty
