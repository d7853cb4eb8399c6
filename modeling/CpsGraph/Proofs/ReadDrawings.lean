import CpsGraph.Dot.Program
import CpsGraph.Proofs.Results
import CpsGraph.Text.Decimal

/-! # Reading drawings

What a DOT text says is given by a reader: a scanner splits the text into tokens, and the tokens
between two semicolons are one entry of the drawing, a node, an edge or a setting. Inside quotes a
backslash protects the next character, so whatever a caption holds, it ends where it should. A text
that was written line by line is read as the entries of its lines.
-/

namespace CpsGraph

namespace Text

/-! ## Protected text -/

/-- Whether a character must not stand between double quotes without a backslash. -/
def needsProtection (c : Char) : Bool := c = '"' ∨ c = '\\'

/-- Read protected text from left to right. A backslash is dropped and takes the next character as it
is; `pending` says that one was just read. A quote without a backslash and a backslash without a
character are faults. -/
def unescapeChars : (pending : Bool) → List Char → Option (List Char)
  | false, [] => some []
  | true, [] => none
  | true, c :: rest => (unescapeChars false rest).map (c :: ·)
  | false, c :: rest =>
    if c = '"' then none
    else if c = '\\' then unescapeChars true rest
    else (unescapeChars false rest).map (c :: ·)

/-- The text that a protected text stands for. -/
def unescape? (text : String) : Option String := (unescapeChars false text.toList).map String.ofList

theorem escapeChars_append (first second : List Char) :
    escapeChars (first ++ second) = escapeChars first ++ escapeChars second := by
  induction first with
  | nil => rfl
  | cons c rest ih =>
    by_cases delicate : c = '"' ∨ c = '\\'
    · simp only [List.cons_append, escapeChars, if_pos delicate, ih]
    · simp only [List.cons_append, escapeChars, if_neg delicate, ih]

theorem escape_append (first second : String) :
    escape (first ++ second) = escape first ++ escape second := by
  rw [escape, String.toList_append, escapeChars_append, String.ofList_append]
  rfl

/-- Text without quotes and backslashes needs no protection. -/
theorem escape_of_plain {text : String} (plain : text.toList.any needsProtection = false) :
    escape text = text := by
  have same : ∀ {chars : List Char}, chars.any needsProtection = false → escapeChars chars = chars := by
    intro chars plain
    induction chars with
    | nil => rfl
    | cons c rest ih =>
      obtain ⟨first, others⟩ := Bool.or_eq_false_iff.mp plain
      rw [escapeChars, if_neg (of_decide_eq_false first), ih others]
  rw [escape, same plain, String.ofList_toList]

/-- The digits of a number need no protection. -/
theorem plain_number (number : Nat) : (toString number).toList.any needsProtection = false := by
  refine List.any_eq_false.mpr fun c member delicate => ?_
  have digit := isDigit_of_mem_number member
  rcases of_decide_eq_true delicate with rfl | rfl <;> contradiction

theorem unescapeChars_escapeChars (chars : List Char) :
    unescapeChars false (escapeChars chars) = some chars := by
  induction chars with
  | nil => rfl
  | cons c rest ih =>
    by_cases delicate : c = '"' ∨ c = '\\'
    · rw [escapeChars, if_pos delicate]
      simp [unescapeChars, ih]
    · rw [escapeChars, if_neg delicate]
      obtain ⟨notQuote, notBackslash⟩ := not_or.mp delicate
      simp [unescapeChars, notQuote, notBackslash, ih]

/-- Protected text is without fault and stands for the text that was protected. -/
theorem unescape?_escape (text : String) : unescape? (escape text) = some text := by
  rw [unescape?, escape, String.toList_ofList, unescapeChars_escapeChars, Option.map_some,
    String.ofList_toList]

theorem escape_injective : Function.Injective escape := by
  intro first second same
  have read := congrArg unescape? same
  rw [unescape?_escape, unescape?_escape] at read
  exact Option.some.inj read

end Text

namespace Dot

/-! ## Scanning -/

/-- A token of a DOT text. Whether an identifier was quoted makes no difference. -/
inductive Token where
  | id (text : String)
  | arrow
  | mark (char : Char)
deriving Repr, DecidableEq

/-- Whether a character can stand in an identifier without quotes. -/
def isWordChar (c : Char) : Bool := c.isAlphanum ∨ c = '_'

/-- Whether a text can be an identifier without quotes. -/
def IsWord (text : String) : Prop := text.toList ≠ [] ∧ ∀ c ∈ text.toList, isWordChar c

instance (text : String) : Decidable (IsWord text) :=
  decidable_of_iff (text.toList ≠ [] ∧ text.toList.all isWordChar = true)
    (and_congr_right fun _ => List.all_eq_true)

/-- What a scanner is in the middle of. `protecting` is inside quotes, after a backslash. -/
inductive Mode where
  | between
  | word (read : List Char)
  | quoted (read : List Char)
  | protecting (read : List Char)
  | dash
deriving Repr, DecidableEq

/-- A scanner with the tokens that it found, newest first. -/
structure Scanner where
  mode : Mode
  found : List Token
deriving Repr, DecidableEq

namespace Scanner

/-- Read a character that is not part of a token already begun. -/
def start (found : List Token) (c : Char) : Option Scanner :=
  if isWordChar c then some ⟨.word [c], found⟩
  else if Text.isBlank c then some ⟨.between, found⟩
  else if c = '"' then some ⟨.quoted [], found⟩
  else if c = '-' then some ⟨.dash, found⟩
  else if c ∈ ['\x7b', '\x7d', '[', ']', '=', ',', ';'] then some ⟨.between, .mark c :: found⟩
  else none

/-- Read a character. -/
def step : Scanner → Char → Option Scanner
  | ⟨.between, found⟩, c => start found c
  | ⟨.word read, found⟩, c =>
    if isWordChar c then some ⟨.word (read ++ [c]), found⟩
    else start (.id (String.ofList read) :: found) c
  | ⟨.quoted read, found⟩, c =>
    if c = '"' then some ⟨.between, .id (String.ofList read) :: found⟩
    else if c = '\\' then some ⟨.protecting read, found⟩
    else some ⟨.quoted (read ++ [c]), found⟩
  | ⟨.protecting read, found⟩, c => some ⟨.quoted (read ++ [c]), found⟩
  | ⟨.dash, found⟩, c => if c = '>' then some ⟨.between, .arrow :: found⟩ else none

/-- The tokens that were found, if the text may end here. -/
def finish : Scanner → Option (List Token)
  | ⟨.between, found⟩ => some found.reverse
  | ⟨.word read, found⟩ => some (.id (String.ofList read) :: found).reverse
  | _ => none

end Scanner

/-- The tokens of a text. -/
def tokens? (text : String) : Option (List Token) :=
  (text.toList.foldlM Scanner.step ⟨.between, []⟩).bind Scanner.finish

/-- Reading some characters takes a scanner from one mode to another and finds some tokens. -/
structure Scans (before after : Mode) (chars : List Char) (tokens : List Token) : Prop where
  run : ∀ found, chars.foldlM Scanner.step ⟨before, found⟩ = some ⟨after, tokens.reverse ++ found⟩

namespace Scans

variable {before middle after : Mode} {first second chars read : List Char} {tokens others : List Token}

theorem append (scans : Scans before middle first tokens) (later : Scans middle after second others) :
    Scans before after (first ++ second) (tokens ++ others) := by
  constructor
  intro found
  rw [List.foldlM_append, scans.run, Option.bind_eq_bind, Option.bind_some, later.run,
    List.reverse_append, List.append_assoc]

theorem nil (mode : Mode) : Scans mode mode [] [] := ⟨fun _ => rfl⟩

/-- A text of several parts has the tokens of its parts. -/
theorem flatMap {α : Type} {parts : List α} {text : α → List Char} {tokensOf : α → List Token}
    (scans : ∀ part ∈ parts, Scans .between .between (text part) (tokensOf part)) :
    Scans .between .between (parts.flatMap text) (parts.flatMap tokensOf) := by
  induction parts with
  | nil => exact .nil _
  | cons part parts ih =>
    obtain ⟨first, others⟩ := List.forall_mem_cons.mp scans
    exact first.append (ih others)

/-- An identifier goes on as long as characters of identifiers follow. -/
theorem word_append (isWord : ∀ c ∈ chars, isWordChar c) :
    Scans (.word read) (.word (read ++ chars)) chars [] := by
  induction chars generalizing read with
  | nil => simpa using nil (.word read)
  | cons c rest ih =>
    obtain ⟨first, others⟩ := List.forall_mem_cons.mp isWord
    have more : Scans (.word (read ++ [c])) (.word (read ++ [c] ++ rest)) rest [] := ih others
    rw [List.append_assoc, List.singleton_append] at more
    refine ⟨fun found => ?_⟩
    rw [List.foldlM_cons, Scanner.step, if_pos first]
    exact more.run found

/-- An identifier without quotes ends before a character that cannot stand in one. -/
theorem bare {text : String} (isWord : IsWord text) (ends : chars.head?.map isWordChar = some false)
    (scans : Scans .between after chars tokens) :
    Scans .between after (text.toList ++ chars) (.id text :: tokens) := by
  have inside : Scans .between (.word text.toList) text.toList [] := by
    obtain ⟨more, wordChars⟩ := isWord
    obtain ⟨first, rest, same⟩ := List.exists_cons_of_ne_nil more
    rw [same] at wordChars ⊢
    obtain ⟨firstIsWord, others⟩ := List.forall_mem_cons.mp wordChars
    have begun : Scans .between (.word [first]) [first] [] := by
      refine ⟨fun found => ?_⟩
      simp [Scanner.step, Scanner.start, firstIsWord]
    exact begun.append (word_append others)
  have ended : Scans (.word text.toList) after chars (.id text :: tokens) := by
    obtain ⟨c, isHead, notWord⟩ := Option.map_eq_some_iff.mp ends
    obtain ⟨rest, rfl⟩ := List.head?_eq_some_iff.mp isHead
    refine ⟨fun found => ?_⟩
    have later := scans.run (.id text :: found)
    simp only [List.foldlM_cons, Scanner.step, notWord, String.ofList_toList] at later ⊢
    simpa using later
  exact inside.append ended

/-- Inside quotes a scanner reads protected text as what it stands for. -/
theorem quoted_of_unescapeChars {pending : Bool} {text : List Char}
    (unescaped : Text.unescapeChars pending chars = some text) :
    Scans (if pending then .protecting read else .quoted read) (.quoted (read ++ text)) chars [] := by
  fun_induction Text.unescapeChars pending chars generalizing read text with
  | case1 =>
    cases unescaped
    simpa using nil (.quoted read)
  | case2 => cases unescaped
  | case3 c rest ih =>
    obtain ⟨others, later, rfl⟩ := Option.map_eq_some_iff.mp unescaped
    have more : Scans (.quoted (read ++ [c])) _ rest [] := ih later
    rw [List.append_assoc, List.singleton_append] at more
    refine ⟨fun found => ?_⟩
    rw [List.foldlM_cons, if_pos rfl, Scanner.step]
    exact more.run found
  | case4 => cases unescaped
  | case5 rest _ ih =>
    have more : Scans (.protecting read) _ rest [] := ih unescaped
    refine ⟨fun found => ?_⟩
    rw [List.foldlM_cons, if_neg Bool.false_ne_true, Scanner.step, if_neg (by decide), if_pos rfl]
    exact more.run found
  | case6 c rest notQuote notBackslash ih =>
    obtain ⟨others, later, rfl⟩ := Option.map_eq_some_iff.mp unescaped
    have more : Scans (.quoted (read ++ [c])) _ rest [] := ih later
    rw [List.append_assoc, List.singleton_append] at more
    refine ⟨fun found => ?_⟩
    rw [List.foldlM_cons, if_neg Bool.false_ne_true, Scanner.step, if_neg notQuote,
      if_neg notBackslash]
    exact more.run found

/-- A protected text between quotes is one identifier. -/
theorem quoted (text : String) (scans : Scans .between after chars tokens) :
    Scans .between after ('"' :: ((Text.escape text).toList ++ '"' :: chars)) (.id text :: tokens) := by
  have begun : Scans .between (.quoted []) ['"'] [] := ⟨fun _ => rfl⟩
  have inside : Scans (.quoted []) (.quoted text.toList) (Text.escape text).toList [] := by
    rw [Text.escape, String.toList_ofList]
    exact quoted_of_unescapeChars (Text.unescapeChars_escapeChars text.toList)
  have ended : Scans (.quoted text.toList) .between ['"'] [.id text] := by
    refine ⟨fun found => ?_⟩
    simp [Scanner.step]
  simpa using begun.append (inside.append (ended.append scans))

end Scans

/-! ## Entries -/

/-- An edge of a drawing, with its attributes. -/
structure Link where
  source : String
  target : String
  attributes : List (String × String)
deriving Repr, DecidableEq

/-- What stands before a semicolon in a drawing. -/
inductive Entry where
  | setting (name value : String)
  | node (name : String) (attributes : List (String × String))
  | edge (link : Link)
deriving Repr, DecidableEq

/-- A drawing that was read. -/
structure Drawing where
  title : String
  entries : List Entry
deriving Repr, DecidableEq

/-- The name of the node that an entry declares. -/
def Entry.declared? : Entry → Option String
  | .node name _ => some name
  | _ => none

/-- The edge that an entry draws. -/
def Entry.link? : Entry → Option Link
  | .edge link => some link
  | _ => none

/-- The names of the nodes that a drawing declares. -/
def Drawing.declared (drawing : Drawing) : List String := drawing.entries.filterMap Entry.declared?

/-- The edges of a drawing. -/
def Drawing.links (drawing : Drawing) : List Link := drawing.entries.filterMap Entry.link?

/-- Read attributes, with or without commas between them, up to the closing bracket, which must be the
last token. -/
def readAttributes : List Token → Option (List (String × String))
  | [.mark ']'] => some []
  | .id name :: .mark '=' :: .id value :: .mark ',' :: rest =>
    (readAttributes rest).map ((name, value) :: ·)
  | .id name :: .mark '=' :: .id value :: rest => (readAttributes rest).map ((name, value) :: ·)
  | _ => none

/-- Read the tokens before a semicolon. -/
def Entry.ofTokens? : List Token → Option Entry
  | [.id name, .mark '=', .id value] => some (.setting name value)
  | .id name :: .mark '[' :: rest => (readAttributes rest).map (.node name)
  | .id source :: .arrow :: .id target :: .mark '[' :: rest =>
    (readAttributes rest).map fun attributes => .edge ⟨source, target, attributes⟩
  | _ => none

/-- Read a whole drawing: a title, and entries between braces, each before a semicolon. -/
def Drawing.ofTokens? : List Token → Option Drawing
  | .id keyword :: .id title :: .mark '\x7b' :: body =>
    let parts := body.splitOn (.mark ';')
    if keyword = "digraph" ∧ parts.getLast? = some [.mark '\x7d'] then
      (parts.dropLast.mapM Entry.ofTokens?).map (⟨title, ·⟩)
    else none
  | _ => none

/-- The drawing that a text describes. -/
def Drawing.read? (text : String) : Option Drawing := (tokens? text).bind Drawing.ofTokens?

/-- The tokens of attributes, up to the closing bracket. -/
def attributeTokens : List (String × String) → List Token
  | [] => [.mark ']']
  | [(name, value)] => [.id name, .mark '=', .id value, .mark ']']
  | (name, value) :: next :: rest =>
    .id name :: .mark '=' :: .id value :: .mark ',' :: attributeTokens (next :: rest)

/-- The tokens of an entry. -/
def Entry.tokens : Entry → List Token
  | .setting name value => [.id name, .mark '=', .id value]
  | .node name attributes => .id name :: .mark '[' :: attributeTokens attributes
  | .edge link =>
    .id link.source :: .arrow :: .id link.target :: .mark '[' :: attributeTokens link.attributes

/-- The tokens of an entry and its semicolon. -/
def Entry.line (entry : Entry) : List Token := entry.tokens ++ [.mark ';']

/-- The tokens of a drawing. -/
def Drawing.tokens (drawing : Drawing) : List Token :=
  .id "digraph" :: .id drawing.title :: .mark '\x7b' ::
    (drawing.entries.flatMap Entry.line ++ [.mark '\x7d'])

theorem readAttributes_attributeTokens (attributes : List (String × String)) :
    readAttributes (attributeTokens attributes) = some attributes := by
  fun_induction attributeTokens attributes with
  | case1 => rfl
  | case2 => rfl
  | case3 name value next rest ih => rw [readAttributes, ih, Option.map_some]

theorem Entry.ofTokens?_tokens (entry : Entry) : ofTokens? entry.tokens = some entry := by
  cases entry with
  | setting name value => rfl
  | node name attributes => 
    simp [tokens, ofTokens?, readAttributes_attributeTokens]
  | edge link => simp [tokens, ofTokens?, readAttributes_attributeTokens]

theorem semicolon_not_mem_attributeTokens (attributes : List (String × String)) :
    .mark ';' ∉ attributeTokens attributes := by
  fun_induction attributeTokens attributes with
  | case1 => decide
  | case2 => simp
  | case3 name value next rest ih => simpa using ih

theorem Entry.semicolon_not_mem_tokens (entry : Entry) : .mark ';' ∉ entry.tokens := by
  cases entry with
  | setting name value => simp [tokens]
  | node name attributes => simpa [tokens] using semicolon_not_mem_attributeTokens attributes
  | edge link => simpa [tokens] using semicolon_not_mem_attributeTokens link.attributes

/-- Splitting at semicolons gives back the entries. -/
theorem splitOn_entries (entries : List Entry) (last : Token) (notSemicolon : last ≠ .mark ';') :
    (entries.flatMap Entry.line ++ [last]).splitOn (.mark ';') =
      entries.map Entry.tokens ++ [[last]] := by
  induction entries with
  | nil => exact List.splitOn_eq_singleton (by simpa using notSemicolon.symm)
  | cons entry entries ih =>
    rw [List.flatMap_cons, Entry.line, List.append_assoc, List.append_assoc, List.singleton_append,
      List.splitOn_append_cons_self_of_not_mem entry.semicolon_not_mem_tokens, ih]
    rfl

/-- A drawing is read from its tokens. -/
theorem Drawing.ofTokens?_tokens (drawing : Drawing) : ofTokens? drawing.tokens = some drawing := by
  have entries : (drawing.entries.map Entry.tokens).mapM Entry.ofTokens? = some drawing.entries := by
    induction drawing.entries with
    | nil => rfl
    | cons entry entries ih => simp [ih, Entry.ofTokens?_tokens]
  rw [tokens, ofTokens?, splitOn_entries _ _ (by decide)]
  simp [entries]

/-! ## Written drawings -/

theorem Scans.indent : Scans .between .between "    ".toList [] := ⟨fun _ => rfl⟩

theorem Scans.label : Scans .between .between " [label=".toList [.mark '[', .id "label", .mark '='] :=
  ⟨fun _ => rfl⟩

theorem Scans.arrow : Scans .between .between " -> ".toList [.arrow] := ⟨fun _ => rfl⟩

/-- Lines that are each read as one entry are read as the entries. -/
theorem Scans.join {α : Type} {parts : List α} {text : α → String} {entry : α → Entry}
    (scans : ∀ part ∈ parts, Scans .between .between (text part).toList (entry part).line) :
    Scans .between .between (String.join (parts.map text)).toList
      ((parts.map entry).flatMap Entry.line) := by
  rw [String.toList_join, List.flatMap_map, List.flatMap_map]
  exact .flatMap scans

/-- What stands between the beginning and the end of a written drawing are its entries. -/
theorem Drawing.read?_written {title body : String} {entries : List Entry} (isWord : IsWord title)
    (written : Scans .between .between body.toList (entries.flatMap Entry.line)) :
    Drawing.read? (header title ++ body ++ footer) =
      some ⟨title, .setting "bgcolor" "transparent" :: entries⟩ := by
  have opened : Scans .between .between (header title).toList
      (.id "digraph" :: .id title :: .mark '\x7b' :: (Entry.setting "bgcolor" "transparent").line) := by
    have keyword : Scans .between .between "digraph ".toList [.id "digraph"] := ⟨fun _ => rfl⟩
    have rest : Scans .between .between " \x7b\n    bgcolor=transparent;\n".toList
      (.mark '\x7b' :: (Entry.setting "bgcolor" "transparent").line) := ⟨fun _ => rfl⟩
    have titled := Scans.bare isWord rfl rest
    rw [header, String.toList_append, String.toList_append, List.append_assoc]
    exact keyword.append titled
  have closed : Scans .between .between footer.toList [.mark '\x7d'] := ⟨fun _ => rfl⟩
  have whole : Scans .between .between (header title ++ body ++ footer).toList
      (Drawing.mk title (.setting "bgcolor" "transparent" :: entries)).tokens := by
    rw [String.toList_append, String.toList_append]
    simpa [Drawing.tokens] using (opened.append written).append closed
  rw [Drawing.read?, tokens?, whole.run, Option.bind_some, Scanner.finish, Option.bind_some,
    List.append_nil, List.reverse_reverse, Drawing.ofTokens?_tokens]

end Dot

end CpsGraph
